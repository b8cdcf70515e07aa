import RowFilter.Proofs.Comparison.IntLeaf
import RowFilter.Proofs.Expr.Compilation

/-!
# Order comparisons of integer leaves under the null check

Two integer leaves compare as the integers they stand for, and a leaf that is the null of its
declared type compares false, with one exception: a lone literal, taken at the type of the read
it stands beside, also takes the null of that type. The smallest 32-bit integer then counts as
null although it was declared a 64-bit literal, or does not although it was declared a 32-bit
one.

## Main definitions

- `IntLeaf.nullBeside` — whether a leaf counts as null beside another one.
- `IntLeaf.Misread` — the literals for which that is not what their own type says.

The main statement is `IntLeaf.compile_order`. It describes every comparison, and says exactly
which ones differ from the comparison by declared types.
-/

namespace RowFilter

namespace IntLeaf

variable {memory : Memory} {row : BitVec 64}

/-- Whether the leaf counts as null beside another one. A lone literal beside a 64-bit read is
null at the smallest 64-bit integer only, and beside a narrower read at the smallest 32-bit one
too. -/
def nullBeside (x y : IntLeaf) (memory : Memory) (row : BitVec 64) : Bool :=
  if x.op = .literal ∧ y.op ≠ .literal then
    x.number memory row == (Integer.null 64).toInt ||
      (y.dataType != .i64 && x.number memory row == (Integer.null 32).toInt)
  else x.isNull memory row

/-- The leaf is a lone literal whose null beside the other leaf is not that of its own type: the
smallest 32-bit integer as a 64-bit literal beside a narrower read, or as a 32-bit literal beside a
64-bit read. -/
def Misread (x y : IntLeaf) : Prop :=
  x.op = .literal ∧ y.op ≠ .literal ∧ x.payload.low.toInt = (Integer.null 32).toInt ∧
    (x.dataType = .i64 ∧ y.dataType ≠ .i64 ∨ x.dataType = .i32 ∧ y.dataType = .i64)

theorem value_expr (x : IntLeaf) (nullCheck : Bool) :
    x.expr.value nullCheck memory row = .ok (x.value memory row) := by
  obtain ⟨op, t, payload, hint, haccepted⟩ := x
  change Value.ofLeaf memory row op (.leaf op t payload) = _
  cases op with
  | literal =>
    rw [Value.ofLeaf, Instruction.dataType_leaf]
    cases t
    case i8 | i16 | i32 | i64 => rfl
    all_goals exact absurd hint (by decide)
  | var | column =>
    have hslot : Operand.slotNumber (payload.low.setWidth 32) =
        .ok (payload.low.setWidth 32).toNat :=
      (Operand.slotNumber_eq _).trans (if_pos haccepted)
    rw [Value.ofLeaf, Instruction.dataType_leaf]
    change Operand.slotNumber (payload.low.setWidth 32) >>= _ = _
    rw [hslot]
    cases t
    case i8 | i16 | i32 | i64 => rfl
    all_goals exact absurd hint (by decide)

theorem inlineLiteral?_expr (x : IntLeaf) :
    x.expr.inlineLiteral? =
      if x.op = .literal then some (.int x.payload.low) else none := by
  obtain ⟨op, t, payload, hint, haccepted⟩ := x
  cases op with
  | var | column => rfl
  | literal =>
    cases t
    case i8 | i16 | i32 | i64 => rfl
    all_goals exact absurd hint (by decide)

theorem settle_eq (x y : IntLeaf) :
    Value.settle (x.expr.inlineLiteral?, x.value memory row)
        (y.expr.inlineLiteral?, y.value memory row) =
      (x.beside y memory row, y.beside x memory row) := by
  have htype : ∀ z : IntLeaf, (z.value memory row).dataType = z.dataType :=
    fun z => (z.value_integral memory row).2.1
  rw [inlineLiteral?_expr, inlineLiteral?_expr, beside, beside]
  by_cases hx : x.op = .literal <;> by_cases hy : y.op = .literal
  · rw [if_pos hx, if_pos hy, if_neg fun h => h.2 hy, if_neg fun h => h.2 hx]
    rfl
  · rw [if_pos hx, if_neg hy, if_pos ⟨hx, hy⟩, if_neg fun h => hy h.1, Value.settle, htype]
  · rw [if_neg hx, if_pos hy, if_neg fun h => hx h.1, if_pos ⟨hy, hx⟩, Value.settle, htype]
  · rw [if_neg hx, if_neg hy, if_neg fun h => hx h.1, if_neg fun h => hy h.1]
    rfl

theorem nullBeside_beside (x y : IntLeaf) :
    (x.beside y memory row).nullBeside (y.beside x memory row).dataType =
      x.nullBeside y memory row := by
  by_cases h : x.op = .literal ∧ y.op ≠ .literal
  · obtain ⟨-, ht, hn⟩ := Literal.valueAs_int y.isInt x.payload.low
    have hbeside : x.beside y memory row = (Literal.int x.payload.low).valueAs y.dataType := if_pos h
    have hpeer : (y.beside x memory row).dataType = y.dataType := by
      rw [beside, if_neg fun h' => h.2 h'.1]
      exact (y.value_integral memory row).2.1
    have hnumber : x.number memory row = x.payload.low.toInt := by rw [number, h.1]
    rw [nullBeside, if_pos h, hpeer, hbeside, Value.nullBeside, ht, hn, hnumber,
      Literal.settledType]
    -- The literal keeps the type of the read unless it has to be widened.
    by_cases hwithin : withinInt32 x.payload.low = true
    · have hrange := (withinInt32_iff _).1 hwithin
      rw [if_pos hwithin]
      by_cases hy : y.dataType = .i64
      · rw [if_pos hy, hy]
        exact (Bool.or_false _).symm
      · have hmin : x.payload.low.toInt ≠ (Integer.null 64).toInt := by
          rw [Integer.toInt_null64]
          omega
        rw [if_neg hy, bne_iff_ne.2 hy, beq_eq_false_iff_ne.2 hmin]
        rfl
    · have hmin : x.payload.low.toInt ≠ (Integer.null 32).toInt := fun heq => by
        rw [Integer.toInt_null32] at heq
        exact hwithin ((withinInt32_iff _).2 (by omega))
      rw [if_neg hwithin, if_pos rfl, beq_eq_false_iff_ne.2 hmin, Bool.and_false, Bool.or_false]
  · obtain ⟨-, ht, hn⟩ := x.value_integral memory row
    have hbeside : x.beside y memory row = x.value memory row := if_neg h
    have hcontains := x.contains_number memory row
    rw [nullBeside, if_neg h, hbeside, Value.nullBeside_of_contains, ht, hn]
    · rfl
    · rw [ht]
      exact x.isInt
    · rw [ht, hn]
      exact hcontains

/-- The null of the declared type is the smallest integer of its register. -/
theorem isNull_eq (x : IntLeaf) (memory : Memory) (row : BitVec 64) :
    x.isNull memory row =
      if x.dataType = .i64 then x.number memory row == (Integer.null 64).toInt
      else x.number memory row == (Integer.null 32).toInt := by
  obtain ⟨-, ht, hn⟩ := x.value_integral memory row
  have hint : (x.value memory row).dataType.isInt = true := by rw [ht, x.isInt]
  have hcontains : (x.value memory row).dataType.Contains (x.value memory row).word.toInt := by
    rw [ht, hn]
    exact x.contains_number memory row
  have h := Value.nullBeside_of_contains hint hcontains .i32
  rw [Value.nullBeside, ht, hn] at h
  exact h.symm

/-- A misread literal is null exactly when it is not the null of its type. -/
theorem nullBeside_of_misread {x y : IntLeaf} (h : x.Misread y) (memory : Memory)
    (row : BitVec 64) : x.nullBeside y memory row = !x.isNull memory row := by
  obtain ⟨hx, hy, hmin, hcase⟩ := h
  have hnumber : x.number memory row = (Integer.null 32).toInt := by rw [number, hx, hmin]
  rw [nullBeside, if_pos ⟨hx, hy⟩, isNull_eq, hnumber]
  rcases hcase with ⟨hxt, hyt⟩ | ⟨hxt, hyt⟩
  · rw [hxt, bne_iff_ne.2 hyt]
    decide
  · rw [hxt, hyt]
    decide

/-- Every other leaf is null exactly when it is the null of its type. -/
theorem nullBeside_of_not_misread {x y : IntLeaf} (h : ¬x.Misread y) (memory : Memory)
    (row : BitVec 64) : x.nullBeside y memory row = x.isNull memory row := by
  rw [nullBeside]
  -- Only a lone literal is not looked at through its own type.
  split
  · rename_i hlone
    have hnumber : x.number memory row = x.payload.low.toInt := by rw [number, hlone.1]
    have hcontains := x.contains_number memory row
    rw [isNull_eq, hnumber]
    rw [hnumber] at hcontains
    by_cases hxt : x.dataType = .i64
    · rw [if_pos hxt]
      by_cases hmin : x.payload.low.toInt = (Integer.null 32).toInt
      · have hyt : y.dataType = .i64 :=
          Decidable.byContradiction fun hyt => h ⟨hlone.1, hlone.2, hmin, .inl ⟨hxt, hyt⟩⟩
        rw [hyt]
        exact Bool.or_false _
      · rw [beq_eq_false_iff_ne.2 hmin, Bool.and_false, Bool.or_false]
    · obtain ⟨hlow, -, hnull⟩ := hcontains.narrow x.isInt hxt
      have hwide : x.payload.low.toInt ≠ (Integer.null 64).toInt := by
          rw [Integer.toInt_null64]
          omega
      rw [if_neg hxt, beq_eq_false_iff_ne.2 hwide, Bool.false_or]
      by_cases hmin : x.payload.low.toInt = (Integer.null 32).toInt
      · have hsentinel : x.dataType.hasNullSentinel = true :=
          (Bool.not_eq_false _).mp fun hnone => hnull hnone hmin
        have hxt : x.dataType = .i32 := DataType.eq_i32_of_hasNullSentinel x.isInt hxt hsentinel
        have hyt : y.dataType ≠ .i64 := fun hyt => h ⟨hlone.1, hlone.2, hmin, .inr ⟨hxt, hyt⟩⟩
        rw [bne_iff_ne.2 hyt, Bool.true_and]
      · rw [beq_eq_false_iff_ne.2 hmin, Bool.and_false]
  · rfl

/-- The stream that compares two leaves. -/
def orderStream (op : OrderOp) (x y : IntLeaf) : List Instruction :=
  [x.instruction, y.instruction, .op (.binary (.order op))]

theorem value_order (op : OrderOp) (nullCheck : Bool) (x y : IntLeaf) (memory : Memory)
    (row : BitVec 64) :
    (Expr.binary (.order op) 0 (.int 0) x.expr y.expr).value nullCheck memory row =
      .ok ⟨.i32, (x.beside y memory row).provenance.join (y.beside x memory row).provenance,
        .ofBool (op.holds (x.number memory row) (y.number memory row) &&
          !(nullCheck && (x.nullBeside y memory row || y.nullBeside x memory row)))⟩ := by
  obtain ⟨hx, hxn⟩ := x.beside_integral y memory row
  obtain ⟨hy, hyn⟩ := y.beside_integral x memory row
  have hsides := (@settle_eq memory row x y).symm
  have hl : x.beside y memory row = _ := congrArg Prod.fst hsides
  have hr : y.beside x memory row = _ := congrArg Prod.snd hsides
  have horder := hx.order_eq hy op nullCheck
  rw [Value.ordered, hxn, hyn, nullBeside_beside, nullBeside_beside] at horder
  rw [Expr.value, value_expr, value_expr]
  refine Eq.trans ?_ horder
  rw [hl, hr]
  rfl

theorem Misread.not_symm {x y : IntLeaf} (h : x.Misread y) : ¬y.Misread x :=
  fun h' => h.2.1 h'.1

/-- Under the null check the order comparison of two integer leaves compiles, and it yields
whether the relation holds and neither leaf counts as null beside the other. This is the
comparison by declared types, unless the relation holds, one leaf is a misread literal and the
other one is not null. -/
theorem compile_order (op : OrderOp) (x y : IntLeaf) :
    ∃ p, Predicate.compile true (orderStream op x y) = .ok p ∧ p.dataType = .i32 ∧
      ∀ memory row,
        p.value memory row =
            .i32 (if op.holds (x.number memory row) (y.number memory row) &&
              !(x.nullBeside y memory row || y.nullBeside x memory row) then 1 else 0) ∧
          (p.value memory row =
              .i32 (if op.holds (x.number memory row) (y.number memory row) &&
                !(x.isNull memory row || y.isNull memory row) then 1 else 0) ↔
            ¬(op.holds (x.number memory row) (y.number memory row) = true ∧
              (x.Misread y ∧ y.isNull memory row = false ∨
                y.Misread x ∧ x.isNull memory row = false))) := by
  obtain ⟨p, hcompile, hresult⟩ :=
    Predicate.compile_stream_of_value fun memory row => value_order op true x y memory row
  refine ⟨p, hcompile, congrArg Value.dataType (hresult Emission.zeroMemory 0),
    fun memory row => ?_⟩
  have hword : p.value memory row = .ofBool _ := congrArg Value.word (hresult memory row)
  refine ⟨hword, ?_⟩
  rw [hword, ← Word.ofBool_eq, Word.ofBool_inj, Bool.true_and]
  by_cases hx : x.Misread y
  · rw [nullBeside_of_misread hx, nullBeside_of_not_misread hx.not_symm]
    simp only [hx, hx.not_symm, true_and, false_and, or_false]
    cases op.holds _ _ <;> cases x.isNull _ _ <;> cases y.isNull _ _ <;> decide
  · by_cases hy : y.Misread x
    · rw [nullBeside_of_misread hy, nullBeside_of_not_misread hx]
      simp only [hx, hy, true_and, false_and, false_or]
      cases op.holds _ _ <;> cases x.isNull _ _ <;> cases y.isNull _ _ <;> decide
    · rw [nullBeside_of_not_misread hx, nullBeside_of_not_misread hy]
      simp only [hx, hy, false_and, or_false, and_false, not_false_iff]

/-- Both misreadings occur. An 8-bit read of five is greater than the smallest 32-bit integer,
neither of them is null, and the comparison with that integer as a 64-bit literal fails. A 64-bit
read of five is compared with the null of the 32-bit type, and the comparison succeeds. -/
theorem order_misread :
    let memory : Memory := ⟨fun _ offset => if offset = 0 then 5 else 0, fun _ _ => 0, fun _ => 0⟩
    let narrow : IntLeaf := ⟨.column, .i8, .int 0, rfl, by decide, by decide⟩
    let wide : IntLeaf := ⟨.column, .i64, .int 0, rfl, by decide, by decide⟩
    let wideLiteral : IntLeaf :=
      ⟨.literal, .i64, .int ((BitVec.intMin 32).signExtend 128), rfl, _, rfl⟩
    let narrowLiteral : IntLeaf :=
      ⟨.literal, .i32, .int ((BitVec.intMin 32).signExtend 128), rfl, BitVec.intMin 32, rfl⟩
    (narrow.isNull memory 0 = false ∧ wideLiteral.isNull memory 0 = false ∧
        OrderOp.gt.holds (narrow.number memory 0) (wideLiteral.number memory 0) = true ∧
        (Predicate.compile true (orderStream .gt narrow wideLiteral)).map (·.value memory 0) =
          .ok (.i32 0)) ∧
      narrowLiteral.isNull memory 0 = true ∧
        (Predicate.compile true (orderStream .gt wide narrowLiteral)).map (·.value memory 0) =
          .ok (.i32 1) := by
  refine ⟨⟨?_, ?_, ?_, ?_⟩, ?_, ?_⟩
  · decide
  · decide
  · decide
  · rfl
  · decide
  · rfl

end IntLeaf

end RowFilter
