import RowFilter.Proofs.Expr.Truth
import RowFilter.Proofs.Selector.RowLoop

/-!
# Selections as a boolean algebra

The logic operators on predicates are the set operations on the rows they select.

A predicate made of comparisons by the logic operators is a truth value at every node, by induction:
a comparison is one, and on truth values the bitwise operators are the logical ones. None of its
nodes below a logic operator is a literal, and all have the type of a comparison, so loading and
promotion leave the operands as they are.

## Main definitions

- `LogicOp.holds` — the connective a logic operator stands for.
- `Expr.IsBoolean` — the predicates made of comparisons that compile.

## Main statements

- `Expr.IsBoolean.exists_truth` — such a predicate has a truth value on every row.
- `Selector.select_connectives` — the selections of a complement, a conjunction and a disjunction.
-/

namespace RowFilter

/-- The connective a logic operator stands for. -/
def LogicOp.holds (op : LogicOp) (a b : Bool) : Bool :=
  match op with
  | .and => a && b
  | .or => a || b

namespace Word

@[simp] theorem not_ofBool (b : Bool) : (ofBool b).not = ofBool (!b) := by
  cases b <;> rfl

@[simp] theorem logic_ofBool (op : LogicOp) (a b : Bool) :
    logic op (ofBool a) (ofBool b) = ofBool (op.holds a b) := by
  cases op <;> cases a <;> cases b <;> rfl

end Word

namespace Expr

variable {nullCheck : Bool} {memory : Memory} {row : BitVec 64} {e arg lhs rhs : Expr}

/-- The predicates made of comparisons by the logic operators. The comparisons are of any two
expressions, as long as they compile. -/
inductive IsBoolean (nullCheck : Bool) : Expr → Prop
  | comparison {op : BinaryOp} (hop : (Opcode.binary op).isComparison = true)
    (options : BitVec 32) (payload : Payload) (lhs rhs : Expr)
    (h : ∃ p, Predicate.compile nullCheck (binary op options payload lhs rhs).stream = .ok p) :
    IsBoolean nullCheck (binary op options payload lhs rhs)
  | not (options : BitVec 32) (payload : Payload) {arg : Expr} (h : IsBoolean nullCheck arg) :
    IsBoolean nullCheck (unary .not options payload arg)
  | logic (op : LogicOp) (options : BitVec 32) (payload : Payload) {lhs rhs : Expr}
    (hl : IsBoolean nullCheck lhs) (hr : IsBoolean nullCheck rhs) :
    IsBoolean nullCheck (binary (.logic op) options payload lhs rhs)

theorem IsBoolean.inlineLiteral? (h : e.IsBoolean nullCheck) : e.inlineLiteral? = none := by
  cases h <;> rfl

/-- The complement of a truth value. -/
theorem value_not_of_isTruth {a : Value} {b : Bool} (options : BitVec 32) (payload : Payload)
    (ha : arg.value nullCheck memory row = .ok a) (ht : a.dataType = .i32)
    (hb : a.word = .ofBool b) :
    (unary .not options payload arg).value nullCheck memory row =
      .ok ⟨.i32, a.provenance, .ofBool !b⟩ := by
  rw [value, ha]
  change Value.unary .not a = _
  have hsupports : Value.supports .i32 (.unary .not) = true := rfl
  rw [Value.unary, ht, if_pos hsupports, hb, Word.not_ofBool]

/-- A logic operator on two truth values, neither of which is a literal. -/
theorem value_logic_of_isTruth {a b : Value} {x y : Bool} (op : LogicOp) (options : BitVec 32)
    (payload : Payload) (hl : lhs.inlineLiteral? = none) (hr : rhs.inlineLiteral? = none)
    (ha : lhs.value nullCheck memory row = .ok a) (hb : rhs.value nullCheck memory row = .ok b)
    (hta : a.dataType = .i32) (htb : b.dataType = .i32)
    (hx : a.word = .ofBool x) (hy : b.word = .ofBool y) :
    (binary (.logic op) options payload lhs rhs).value nullCheck memory row =
      .ok ⟨.i32, a.provenance.join b.provenance, .ofBool (op.holds x y)⟩ := by
  have hsides : sides nullCheck memory row lhs rhs = .ok (a, b) := by
    rw [sides, ha, hb, hl, hr]
    rfl
  have hunify : Value.unify nullCheck a b = .ok (a, b) := by
    rw [Value.unify, hta, htb]
    exact if_pos rfl
  rw [value_binary, hsides]
  change Value.unify nullCheck a b >>= _ = _
  rw [hunify]
  change Value.binary (.logic op) nullCheck a b = _
  have hsupports : Value.supports .i32 (.binary (.logic op)) = true := rfl
  rw [Value.binary, Value.combine, hta, if_pos hsupports, hx, hy, Word.logic_ofBool]

/-- A predicate made of comparisons has a truth value on every row, whatever the nesting. -/
theorem IsBoolean.exists_truth (h : e.IsBoolean nullCheck) (memory : Memory) (row : BitVec 64) :
    ∃ v, e.value nullCheck memory row = .ok v ∧ v.IsTruth := by
  induction h with
  | comparison hop options payload lhs rhs h =>
    obtain ⟨p, hp⟩ := h
    have hvalue := Predicate.value_of_compile_stream hp memory row
    exact ⟨_, hvalue, isTruth_of_comparison hop hvalue⟩
  | not options payload _ ih =>
    obtain ⟨a, ha, htruth⟩ := ih
    obtain ⟨ht, b, hb⟩ := Value.isTruth_iff_exists.1 htruth
    exact ⟨_, value_not_of_isTruth options payload ha ht hb,
      Value.isTruth_iff_exists.2 ⟨rfl, _, rfl⟩⟩
  | logic op options payload hl hr ihl ihr =>
    obtain ⟨a, ha, htrutha⟩ := ihl
    obtain ⟨b, hb, htruthb⟩ := ihr
    obtain ⟨hta, x, hx⟩ := Value.isTruth_iff_exists.1 htrutha
    obtain ⟨htb, y, hy⟩ := Value.isTruth_iff_exists.1 htruthb
    exact ⟨_, value_logic_of_isTruth op options payload hl.inlineLiteral? hr.inlineLiteral? ha hb
      hta htb hx hy, Value.isTruth_iff_exists.2 ⟨rfl, _, rfl⟩⟩

end Expr

namespace Selector

variable {config : Config} {p q : Expr} {sp sq s : Selector}

/-- A stream has the selector of its predicate, if that is an integer. -/
theorem compile_eq_ok_iff {stream : List Instruction} :
    compile stream config = .ok s ↔ Predicate.compile config.nullCheck stream = .ok s.predicate := by
  constructor
  · intro h
    obtain ⟨predicate, hpredicate, h⟩ := exists_of_bind_eq_ok h
    unfold ofPredicate at h
    split at h
    next =>
      cases h
      exact hpredicate
    next => cases h
  · intro h
    rw [compile, h]
    exact dif_pos s.isInt

/-- A predicate made of comparisons has a selector, which yields a 32-bit integer. -/
theorem exists_of_isBoolean (h : p.IsBoolean config.nullCheck) :
    ∃ s, compile p.stream config = .ok s ∧ s.resultType = .i32 := by
  obtain ⟨v, hv, ht, -⟩ := h.exists_truth Emission.zeroMemory 0
  cases hcompile : Predicate.compile config.nullCheck p.stream with
  | error e =>
    have hvalue := Predicate.map_result_compile_stream config.nullCheck p Emission.zeroMemory 0
    rw [hcompile, hv] at hvalue
    cases hvalue
  | ok predicate =>
    have hvalue := Predicate.value_of_compile_stream hcompile Emission.zeroMemory 0
    have htype : predicate.dataType = .i32 := by
      rw [← ht, ← Except.ok.inj (hvalue.symm.trans hv)]
      rfl
    exact ⟨⟨predicate, by rw [htype]; rfl⟩, compile_eq_ok_iff.2 hcompile, htype⟩

/-- The value of a selector of a predicate made of comparisons says whether the row is selected. -/
theorem result_of_isBoolean (h : p.IsBoolean config.nullCheck)
    (hs : compile p.stream config = .ok s) (memory : Memory) (row : BitVec 64) :
    p.value config.nullCheck memory row = .ok (s.predicate.result memory row) ∧
      s.predicate.dataType = .i32 ∧
      s.predicate.value memory row = .ofBool (s.selects memory row) := by
  obtain ⟨v, hv, htruth⟩ := h.exists_truth memory row
  obtain ⟨ht, b, hb⟩ := Value.isTruth_iff_exists.1 htruth
  have hvalue := Predicate.value_of_compile_stream (compile_eq_ok_iff.1 hs) memory row
  obtain rfl : s.predicate.result memory row = v := Except.ok.inj (hvalue.symm.trans hv)
  have hword : s.predicate.value memory row = .ofBool b := hb
  refine ⟨hvalue, ht, ?_⟩
  rw [selects, hword, Word.isNonzero_ofBool]

theorem isTruth_value (h : p.IsBoolean config.nullCheck) (hs : compile p.stream config = .ok s)
    (memory : Memory) (row : BitVec 64) :
    s.predicate.value memory row = .i32 0 ∨ s.predicate.value memory row = .i32 1 := by
  obtain ⟨v, hv, -, hword⟩ := h.exists_truth memory row
  have hvalue := Predicate.value_of_compile_stream (compile_eq_ok_iff.1 hs) memory row
  obtain rfl : s.predicate.result memory row = v := Except.ok.inj (hvalue.symm.trans hv)
  exact hword

theorem selects_not (options : BitVec 32) (payload : Payload) (hp : p.IsBoolean config.nullCheck)
    (hsp : compile p.stream config = .ok sp)
    (hs : compile (Expr.unary .not options payload p).stream config = .ok s) (memory : Memory)
    (row : BitVec 64) : s.selects memory row = !sp.selects memory row := by
  obtain ⟨hvalue, ht, hword⟩ := result_of_isBoolean hp hsp memory row
  have hnot := Expr.value_not_of_isTruth options payload hvalue ht hword
  have hresult := (Predicate.value_of_compile_stream (compile_eq_ok_iff.1 hs) memory row).symm.trans hnot
  have hvalue' : s.predicate.value memory row = .ofBool (!sp.selects memory row) :=
    congrArg Value.word (Except.ok.inj hresult)
  rw [selects, hvalue', Word.isNonzero_ofBool]

theorem selects_logic (op : LogicOp) (options : BitVec 32) (payload : Payload)
    (hp : p.IsBoolean config.nullCheck) (hq : q.IsBoolean config.nullCheck)
    (hsp : compile p.stream config = .ok sp) (hsq : compile q.stream config = .ok sq)
    (hs : compile (Expr.binary (.logic op) options payload p q).stream config = .ok s)
    (memory : Memory) (row : BitVec 64) :
    s.selects memory row = op.holds (sp.selects memory row) (sq.selects memory row) := by
  obtain ⟨hvalue, ht, hword⟩ := result_of_isBoolean hp hsp memory row
  obtain ⟨hvalue', ht', hword'⟩ := result_of_isBoolean hq hsq memory row
  have hlogic := Expr.value_logic_of_isTruth op options payload hp.inlineLiteral? hq.inlineLiteral?
    hvalue hvalue' ht ht' hword hword'
  have hresult :=
    (Predicate.value_of_compile_stream (compile_eq_ok_iff.1 hs) memory row).symm.trans hlogic
  have hboth : s.predicate.value memory row =
      .ofBool (op.holds (sp.selects memory row) (sq.selects memory row)) :=
    congrArg Value.word (Except.ok.inj hresult)
  rw [selects, hboth, Word.isNonzero_ofBool]

/-- The selections of predicates made of comparisons, of any nesting, on any range. The
complement, the conjunction and the disjunction compile to a 32-bit integer. A predicate is zero
or one on every row; its complement selects the other rows of the range, a conjunction the rows
that both select, and a disjunction the rows that either selects. -/
theorem select_connectives (hp : p.IsBoolean config.nullCheck) (hq : q.IsBoolean config.nullCheck)
    (o₁ o₂ o₃ : BitVec 32) (x₁ x₂ x₃ : Payload) :
    ∃ sp sq complement both either : Selector,
      compile p.stream config = .ok sp ∧ compile q.stream config = .ok sq ∧
      compile (Expr.unary .not o₁ x₁ p).stream config = .ok complement ∧
      compile (Expr.binary (.logic .and) o₂ x₂ p q).stream config = .ok both ∧
      compile (Expr.binary (.logic .or) o₃ x₃ p q).stream config = .ok either ∧
      sp.resultType = .i32 ∧ complement.resultType = .i32 ∧ both.resultType = .i32 ∧
      either.resultType = .i32 ∧
      ∀ memory, (∀ row, sp.predicate.value memory row = .i32 0 ∨
          sp.predicate.value memory row = .i32 1) ∧
        ∀ start stop row,
          (row ∈ complement.select memory start stop ↔
            (start.toInt ≤ row.toInt ∧ row.toInt < stop.toInt) ∧
              row ∉ sp.select memory start stop) ∧
          (row ∈ both.select memory start stop ↔
            row ∈ sp.select memory start stop ∧ row ∈ sq.select memory start stop) ∧
          (row ∈ either.select memory start stop ↔
            row ∈ sp.select memory start stop ∨ row ∈ sq.select memory start stop) := by
  obtain ⟨sp, hsp, htp⟩ := exists_of_isBoolean hp
  obtain ⟨sq, hsq, -⟩ := exists_of_isBoolean hq
  obtain ⟨complement, hcomplement, htc⟩ := exists_of_isBoolean (.not o₁ x₁ hp)
  obtain ⟨both, hboth, htb⟩ := exists_of_isBoolean (.logic .and o₂ x₂ hp hq)
  obtain ⟨either, heither, hte⟩ := exists_of_isBoolean (.logic .or o₃ x₃ hp hq)
  refine ⟨sp, sq, complement, both, either, hsp, hsq, hcomplement, hboth, heither, htp, htc, htb, hte,
    fun memory => ⟨fun row => isTruth_value hp hsp memory row,
      fun start stop row => ⟨?_, ?_, ?_⟩⟩⟩
  · rw [mem_select_iff, mem_select_iff, selects_not o₁ x₁ hp hsp hcomplement, Bool.not_eq_true',
      ← Bool.not_eq_true]
    tauto
  · rw [mem_select_iff, mem_select_iff, mem_select_iff,
      selects_logic .and o₂ x₂ hp hq hsp hsq hboth, LogicOp.holds, Bool.and_eq_true]
    tauto
  · rw [mem_select_iff, mem_select_iff, mem_select_iff,
      selects_logic .or o₃ x₃ hp hq hsp hsq heither, LogicOp.holds, Bool.or_eq_true]
    tauto

/-- A 32-bit column above one, and a 64-bit column that is not zero. -/
theorem select_connectives_nested :
    let literal : BitVec 32 → BitVec 128 → Expr := fun t x => .leaf .literal t (.int x)
    let p : Expr := .binary (.order .gt) 0 (.int 0) (.leaf .column 2 (.int 0)) (literal 2 1)
    let q : Expr := .unary .not 0 (.int 0)
      (.binary (.equality .eq) 0 (.int 0) (.leaf .column 4 (.int 1)) (literal 4 0))
    ∃ sp sq both : Selector, p.IsBoolean true ∧ q.IsBoolean true ∧
      compile p.stream {} = .ok sp ∧ compile q.stream {} = .ok sq ∧
      compile (Expr.binary (.logic .and) 0 (.int 0) p q).stream {} = .ok both ∧
      ∀ memory start stop row, row ∈ both.select memory start stop ↔
        row ∈ sp.select memory start stop ∧ row ∈ sq.select memory start stop := by
  intro literal p q
  have hp : p.IsBoolean true := .comparison rfl _ _ _ _ ⟨_, rfl⟩
  have hq : q.IsBoolean true := .not _ _ (.comparison rfl _ _ _ _ ⟨_, rfl⟩)
  obtain ⟨sp, sq, _, both, _, hsp, hsq, -, hboth, -, -, -, -, -, h⟩ :=
    @select_connectives {} p q hp hq 0 0 0 (.int 0) (.int 0) (.int 0)
  exact ⟨sp, sq, both, hp, hq, hsp, hsq, hboth,
    fun memory start stop row => ((h memory).2 start stop row).2.1⟩

end Selector

end RowFilter
