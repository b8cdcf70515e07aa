import Mathlib.Data.Multiset.Lattice
import RowFilter.Proofs.Expr.Truth

/-!
# Static types

The type and the provenance of a result are known before anything is run, and how the expression is
nested plays no part in them.

Arithmetic brings its two operands to the join of their ranks, and the join is that of a
semilattice: a rank is converted to each of the ranks above it, and the join is the lowest rank that
both operands reach. So any number of operands, in any nesting and in any order, have a result of
the join of all of their ranks. It need not be one of theirs, since neither a 64-bit integer nor a
single-precision float is converted to the other.

## Main definitions

- `Rank` as a semilattice, in the order of promotion.
- `Expr.ranks` — the ranks that the leaves name.
- `Expr.IsReadArithmetic` — arithmetic on numbers that are read.
- `Expr.ReadsMemory` — the expressions with a leaf that reads.

## Main statements

- `Expr.IsReadArithmetic.exists_value` — the type of an arithmetic expression, by induction.
- `Expr.provenance_value` — the provenance of any expression, by induction.
- `Predicate.compile_sup_ranks` — the compiled predicate.
-/

namespace RowFilter

open Operand (IsSlot)

namespace Rank

/-- The order of promotion: a rank is below itself and below the ranks there is a conversion to. By
their heights 64-bit integers come before single-precision floats; here neither is below the
other. -/
instance : PartialOrder Rank where
  le a b := a = b ∨ a.convertsTo b = true
  le_refl a := .inl rfl
  le_trans a b c := by cases a <;> cases b <;> cases c <;> decide
  le_antisymm a b := by cases a <;> cases b <;> decide

instance : DecidableLE Rank := fun a b =>
  inferInstanceAs (Decidable (a = b ∨ a.convertsTo b = true))

theorem rank_dataType (r : Rank) : r.dataType.rank = some r := by
  cases r <;> rfl

/-- Two ranks both reach their join, and it is below every rank that both reach. -/
instance : SemilatticeSup Rank where
  sup := join
  le_sup_left a b := or_iff_not_imp_left.2 (convertsTo_join a b).1
  le_sup_right a b := or_iff_not_imp_left.2 (convertsTo_join a b).2
  sup_le a b c := by cases a <;> cases b <;> cases c <;> decide

instance : OrderBot Rank where
  bot := int32
  bot_le a := by cases a <;> decide

example : int32 ≤ int64 ∧ int64 ≤ float64 ∧ int32 ≤ float32 ∧ float32 ≤ float64 ∧
    ¬int64 ≤ float32 ∧ ¬float32 ≤ int64 := by
  decide

end Rank

namespace DataType

variable {t : DataType} {r : Rank}

theorem isInt_or_isFloat_of_rank (h : t.rank = some r) : (t.isInt || t.isFloat) = true := by
  cases t <;> cases h <;> rfl

/-- Arithmetic on a numeric type has the type that its rank stands for. -/
theorem arithType_of_rank (h : t.rank = some r) : Operand.arithType t = r.dataType := by
  cases t <;> cases h <;> rfl

end DataType

/-- A numeric slot or column is read at its declared type. -/
theorem ReadOp.dataType_value (op : ReadOp) {t : DataType} {r : Rank} (h : t.rank = some r)
    (memory : Memory) (row : BitVec 64) (slot : Nat) :
    (op.value memory row t slot).dataType = t := by
  cases op with
  | var => rfl
  | column => cases t <;> cases h <;> rfl

namespace Value

variable {nullCheck : Bool} {a b a' b' : Value}

theorem provenance_valueAs (target : DataType) (x : Literal) :
    (x.valueAs target).provenance = .const := by
  cases x with
  | int x =>
    cases target
    case i8 | i16 | i32 =>
      simp only [Literal.valueAs]
      split <;> rfl
    all_goals rfl
  | float x =>
    simp only [Literal.valueAs]
    split <;> rfl

/-- Beside another value a literal may change its type, but it remains a literal. -/
theorem provenance_settle {x y : Option Literal × Value}
    (hx : ∀ l, x.1 = some l → x.2.provenance = .const)
    (hy : ∀ l, y.1 = some l → y.2.provenance = .const) :
    (settle x y).1.provenance = x.2.provenance ∧ (settle x y).2.provenance = y.2.provenance := by
  obtain ⟨_ | x, a⟩ := x <;> obtain ⟨_ | y, b⟩ := y
  · exact ⟨rfl, rfl⟩
  · exact ⟨rfl, (provenance_valueAs _ y).trans (hy y rfl).symm⟩
  · exact ⟨(provenance_valueAs _ x).trans (hx x rfl).symm, rfl⟩
  · exact ⟨rfl, rfl⟩

theorem provenance_promote (v : Value) (nullCheck : Bool) (target : Rank) :
    (v.promote nullCheck target).provenance = v.provenance := by
  unfold Value.promote
  split <;> rfl

/-- A conversion does not change where a value comes from. -/
theorem provenance_unify (h : unify nullCheck a b = .ok (a', b')) :
    a'.provenance = a.provenance ∧ b'.provenance = b.provenance := by
  unfold unify at h
  split at h
  · split at h
    · cases h
      exact ⟨rfl, rfl⟩
    · cases h
      exact ⟨provenance_promote _ _ _, provenance_promote _ _ _⟩
  · split at h
    · cases h
      exact ⟨rfl, rfl⟩
    · cases h

/-- Arithmetic on two numbers is defined, and it has the type of the join of their ranks. -/
theorem exists_arith_of_rank {l r : Rank} (ha : a.dataType.rank = some l)
    (hb : b.dataType.rank = some r) (op : ArithOp) (nullCheck : Bool) :
    ∃ c, (do
        let (a, b) ← unify nullCheck a b
        binary (.arith op) nullCheck a b) = .ok c ∧ c.dataType = (l.join r).dataType := by
  -- Both sides have come to the join when the operator looks at the left one.
  have hrank := rank_promote a nullCheck (l.join r)
  rw [unify_of_rank ha hb]
  exact ⟨_, if_pos (DataType.isInt_or_isFloat_of_rank hrank), DataType.arithType_of_rank hrank⟩

/-- The provenance of a result does not depend on the operator. -/
theorem provenance_combine (op : BinaryOp) (nullCheck : Bool) (a b : Value) :
    (combine op nullCheck a b).provenance = a.provenance.join b.provenance := by
  cases op <;> rfl

end Value

namespace Expr

variable {nullCheck : Bool} {memory : Memory} {row : BitVec 64} {e : Expr} {v : Value}

/-- The ranks of the types that the leaves name. -/
def ranks : Expr → Multiset Rank
  | leaf _ options _ =>
    match (DataType.ofTag? options.toNat).bind DataType.rank with
    | some r => {r}
    | none => 0
  | unary _ _ _ arg => arg.ranks
  | binary _ _ _ lhs rhs => lhs.ranks + rhs.ranks

/-- Some operator of the expression has two operands. -/
def HasBinary : Expr → Prop
  | leaf _ _ _ => False
  | unary _ _ _ arg => arg.HasBinary
  | binary _ _ _ _ _ => True

/-- Some leaf of the expression is a variable or a column. -/
def ReadsMemory : Expr → Prop
  | leaf op _ _ => op ≠ .literal
  | unary _ _ _ arg => arg.ReadsMemory
  | binary _ _ _ lhs rhs => lhs.ReadsMemory ∨ rhs.ReadsMemory

/-- The expressions made of sums, differences, products, quotients and negations of numbers that are
read from slots and columns that exist. -/
inductive IsReadArithmetic : Expr → Prop
  | read (op : ReadOp) {options : BitVec 32} {payload : Payload} {t : DataType} {r : Rank}
    (ht : DataType.ofTag? options.toNat = some t) (hrank : t.rank = some r)
    (hslot : IsSlot (payload.low.setWidth 32).toInt) :
    IsReadArithmetic (.leaf op.leafOp options payload)
  | neg (options : BitVec 32) (payload : Payload) {arg : Expr} (h : arg.IsReadArithmetic) :
    IsReadArithmetic (.unary .neg options payload arg)
  | arith (op : ArithOp) (options : BitVec 32) (payload : Payload) {lhs rhs : Expr}
    (hl : lhs.IsReadArithmetic) (hr : rhs.IsReadArithmetic) :
    IsReadArithmetic (.binary (.arith op) options payload lhs rhs)

namespace IsReadArithmetic

theorem inlineLiteral? (h : e.IsReadArithmetic) : e.inlineLiteral? = none := by
  cases h with
  | read op => cases op <;> rfl
  | neg | arith => rfl

/-- A read has a value of the rank it names. -/
theorem exists_value_read (op : ReadOp) {options : BitVec 32} {payload : Payload} {t : DataType}
    {r : Rank} (ht : DataType.ofTag? options.toNat = some t) (hrank : t.rank = some r)
    (hslot : IsSlot (payload.low.setWidth 32).toInt) (nullCheck : Bool) (memory : Memory)
    (row : BitVec 64) :
    ∃ v, (leaf op.leafOp options payload).value nullCheck memory row = .ok v ∧
      v.dataType.rank = some (leaf op.leafOp options payload).ranks.sup := by
  have hnumber : Operand.slotNumber (payload.low.setWidth 32) =
      .ok (payload.low.setWidth 32).toNat := (Operand.slotNumber_eq _).trans (if_pos hslot)
  refine ⟨op.value memory row t (payload.low.setWidth 32).toNat, ?_, ?_⟩
  · rw [value, Value.ofLeaf_leafOp]
    simp only [Instruction.dataType, Instruction.index, ht, hnumber]
    rfl
  · rw [op.dataType_value hrank]
    simp only [ranks, ht, Option.bind_some, hrank, Multiset.sup_singleton]

/-- An expression has a value of the join of the ranks of its leaves, and if the expression is more
than a negated read, the value is of the widest type of that rank. -/
theorem exists_value (h : e.IsReadArithmetic) (nullCheck : Bool) (memory : Memory)
    (row : BitVec 64) :
    ∃ v, e.value nullCheck memory row = .ok v ∧ v.dataType.rank = some e.ranks.sup ∧
      (e.HasBinary → v.dataType = e.ranks.sup.dataType) := by
  induction h with
  | read op ht hrank hslot =>
    obtain ⟨v, hv, hvrank⟩ := exists_value_read op ht hrank hslot nullCheck memory row
    exact ⟨v, hv, hvrank, nofun⟩
  | neg options payload h ih =>
    obtain ⟨v, hv, hvrank, htype⟩ := ih
    refine ⟨⟨v.dataType, v.provenance, v.word.neg⟩, ?_, hvrank, htype⟩
    rw [value, hv]
    exact if_pos (DataType.isInt_or_isFloat_of_rank hvrank)
  | @arith op options payload lhs rhs hl hr ihl ihr =>
    obtain ⟨v, hv, hvrank, -⟩ := ihl
    obtain ⟨w, hw, hwrank, -⟩ := ihr
    have hsup : (binary (.arith op) options payload lhs rhs).ranks.sup =
        lhs.ranks.sup.join rhs.ranks.sup := Multiset.sup_add _ _
    obtain ⟨u, hu, htype⟩ := Value.exists_arith_of_rank hvrank hwrank op nullCheck
    rw [hsup]
    refine ⟨u, ?_, ?_, fun _ => htype⟩
    · rw [value, hv, hw, hl.inlineLiteral?, hr.inlineLiteral?]
      exact hu
    · rw [htype, Rank.rank_dataType]

end IsReadArithmetic

/-- An inline literal reads nothing. -/
theorem not_readsMemory_of_inlineLiteral? {x : Literal} (h : e.inlineLiteral? = some x) :
    ¬e.ReadsMemory := by
  cases e with
  | leaf op =>
    cases op with
    | literal => exact fun hread => hread rfl
    | var | column => cases h
  | unary | binary => cases h

theorem provenance_leaf {op : LeafOp} {i : Instruction}
    (h : Value.ofLeaf memory row op i = .ok v) : v.provenance = .memory ↔ op ≠ .literal := by
  have hread : ∀ op : ReadOp, Value.ofLeaf memory row op.leafOp i = .ok v →
      v.provenance = .memory := by
    intro op h
    rw [Value.ofLeaf_leafOp] at h
    obtain ⟨t, -, h⟩ := exists_of_bind_eq_ok h
    obtain ⟨slot, -, h⟩ := exists_of_bind_eq_ok h
    cases h
    cases op <;> cases t <;> rfl
  cases op with
  | var => exact iff_of_true (hread .var h) (by decide)
  | column => exact iff_of_true (hread .column h) (by decide)
  | literal =>
    obtain ⟨t, -, h⟩ := exists_of_bind_eq_ok h
    have hconst : v.provenance = .const := by
      cases t with
      | i128 =>
        cases h
        rfl
      | _ =>
        cases h
        exact Value.provenance_valueAs _ _
    rw [hconst]
    decide

/-- A value comes from memory just in case some leaf of the expression reads it. -/
theorem provenance_value (h : e.value nullCheck memory row = .ok v) :
    v.provenance = .memory ↔ e.ReadsMemory := by
  induction e generalizing v with
  | leaf op options payload => exact provenance_leaf h
  | unary op options payload arg ih =>
    obtain ⟨a, ha, h⟩ := exists_of_bind_eq_ok h
    have harg := ih ha
    unfold Value.unary at h
    split at h
    · cases op <;> cases h <;> exact harg
    · cases h
  | binary op options payload lhs rhs ihl ihr =>
    obtain ⟨a, b, a', b', hsides, hunify, -, rfl⟩ := exists_of_value_binary h
    obtain ⟨x, hx, hsides⟩ := exists_of_bind_eq_ok hsides
    obtain ⟨y, hy, hsides⟩ := exists_of_bind_eq_ok hsides
    have hconst : ∀ {e : Expr} {v : Value}, (v.provenance = .memory ↔ e.ReadsMemory) →
        ∀ l, e.inlineLiteral? = some l → v.provenance = .const := by
      intro e v hv l hl
      have hne : v.provenance ≠ .memory := fun h => not_readsMemory_of_inlineLiteral? hl (hv.1 h)
      cases hp : v.provenance with
      | const => rfl
      | memory => exact absurd hp hne
    obtain ⟨hpa, hpb⟩ := Value.provenance_settle (x := (lhs.inlineLiteral?, x))
      (y := (rhs.inlineLiteral?, y)) (hconst (ihl hx)) (hconst (ihr hy))
    rw [Except.ok.inj hsides] at hpa hpb
    obtain ⟨hpa', hpb'⟩ := Value.provenance_unify hunify
    rw [Value.provenance_combine, Provenance.join_eq_memory_iff, hpa', hpb', hpa, hpb]
    exact or_congr (ihl hx) (ihr hy)

end Expr

namespace Predicate

/-- What is known of the result of an expression without running it.

Arithmetic with some operator on two operands, on numbers that are read from slots and columns that
exist, compiles, and the type of its result is that of the join of the ranks of its leaves, with the
32-bit integer for the 32-bit family: the nesting, the order of the leaves and the operators do not
matter.

The result of any expression that compiles comes from memory just in case one of its leaves is a
variable or a column. -/
theorem compile_sup_ranks (nullCheck : Bool) (e : Expr) :
    (e.IsReadArithmetic → e.HasBinary →
      ∃ p, compile nullCheck e.stream = .ok p ∧ p.dataType = e.ranks.sup.dataType) ∧
    ∀ p, compile nullCheck e.stream = .ok p → (p.provenance = .memory ↔ e.ReadsMemory) := by
  constructor
  · intro harith hbinary
    choose f hf using fun memory row => harith.exists_value nullCheck memory row
    obtain ⟨p, hp, hresult⟩ := compile_stream_of_value fun memory row => (hf memory row).1
    have htype : p.dataType = (f Emission.zeroMemory 0).dataType :=
      congrArg Value.dataType (hresult Emission.zeroMemory 0)
    exact ⟨p, hp, htype.trans ((hf Emission.zeroMemory 0).2.2 hbinary)⟩
  · intro p hp
    exact Expr.provenance_value (value_of_compile_stream hp Emission.zeroMemory 0)

/-- A byte, a 64-bit integer and a single-precision float are doubles together, whichever two come
first, although none of them is one. -/
theorem compile_sup_ranks_nestings :
    let x : Expr := .leaf .var 0 (.int 0)
    let y : Expr := .leaf .column 4 (.int 1)
    let z : Expr := .leaf .column 3 (.int 2)
    let arith : ArithOp → Expr → Expr → Expr := fun op => .binary (.arith op) 0 (.int 0)
    let e := arith .sub (arith .mul x y) z
    let e' := Expr.unary .neg 0 (.int 0) (arith .div z (arith .add y x))
    (e.IsReadArithmetic ∧ e.HasBinary) ∧ (e'.IsReadArithmetic ∧ e'.HasBinary) ∧
      e'.ranks.sup = e.ranks.sup ∧
      ∃ p p', compile true e.stream = .ok p ∧ compile true e'.stream = .ok p' ∧
        p.dataType = .f64 ∧ p'.dataType = .f64 ∧ p.provenance = .memory := by
  intro x y z arith e e'
  have hx : x.IsReadArithmetic := .read .var rfl rfl (by decide)
  have hy : y.IsReadArithmetic := .read .column rfl rfl (by decide)
  have hz : z.IsReadArithmetic := .read .column rfl rfl (by decide)
  have he : e.IsReadArithmetic := .arith .sub 0 (.int 0) (.arith .mul 0 (.int 0) hx hy) hz
  have he' : e'.IsReadArithmetic :=
    .neg 0 (.int 0) (.arith .div 0 (.int 0) hz (.arith .add 0 (.int 0) hy hx))
  obtain ⟨p, hp, ht⟩ := (compile_sup_ranks true e).1 he trivial
  obtain ⟨p', hp', ht'⟩ := (compile_sup_ranks true e').1 he' trivial
  have hreads : e.ReadsMemory := .inl (.inl LeafOp.noConfusion)
  exact ⟨⟨he, trivial⟩, ⟨he', trivial⟩, by decide, p, p', hp, hp', ht, ht',
    ((compile_sup_ranks true e).2 p hp).2 hreads⟩

end Predicate

end RowFilter
