import RowFilter.Expr.Value
import RowFilter.Operand.Load
import RowFilter.Proofs.LiteralPool.Growth

/-!
# The values of operands

What an operand on the compilation's stack stands for on a row. An operand in a register carries a
value: its type, its provenance and the word its code evaluates to. An operand that still waits to
be loaded represents a value: an inline literal has one for every type it may be loaded at, any
other operand just the one.

## Main definitions

- `Operand.Carries` — an operand in a register and its value.
- `Operand.Represents` — an operand anywhere and its value, with the literal if it is inline.

The main statements are `Represents.load` and `Represents.loadPair`: loading yields registers that
carry the values represented.
-/

namespace RowFilter

open BinaryFloat (single double)

variable {memory : Memory} {row : BitVec 64} {pool later : LiteralPool}

namespace Operand

/-- An operand in a register that holds a value on a row. The code may read the pool as it is now or
as it is after further insertions. -/
structure Carries (pool : LiteralPool) (memory : Memory) (row : BitVec 64) (v : Operand)
    (a : Value) : Prop where
  dataType : v.dataType = a.dataType
  provenance : v.provenance = a.provenance
  eval : ∃ code, v.location = .register code ∧
    ∀ later, pool.Extends later → code.eval ⟨memory, later, row⟩ = a.word

/-- An operand that stands for a value on a row. The value of an inline literal comes with the
literal, since another operand may give it another type. -/
inductive Represents (pool : LiteralPool) (memory : Memory) (row : BitVec 64) (v : Operand) :
    Option Literal × Value → Prop where
  | literal {x : Literal} (hv : v.location = .literal x) :
    Represents pool memory row v (some x, x.valueAs v.dataType)
  | loadable {u : Operand} {a : Value} (hv : v.isLiteral = false) (ht : v.dataType = a.dataType)
    (hload : ∀ target, v.loadAs target = pure u) (hu : u.Carries pool memory row a) :
    Represents pool memory row v (none, a)

theorem Carries.mono {v : Operand} {a : Value} (h : v.Carries pool memory row a)
    (hpool : pool.Extends later) : v.Carries later memory row a := by
  obtain ⟨ht, hp, code, hcode, heval⟩ := h
  exact ⟨ht, hp, code, hcode, fun _ hlast => heval _ (hpool.trans hlast)⟩

theorem Represents.mono {v : Operand} {a : Option Literal × Value}
    (h : v.Represents pool memory row a) (hpool : pool.Extends later) :
    v.Represents later memory row a := by
  cases h with
  | literal hv => exact .literal hv
  | loadable hv ht hload hu => exact .loadable hv ht hload (hu.mono hpool)

theorem carries_inRegister {code : Code} {t : DataType} {provenance : Provenance} {word : Word}
    (h : ∀ later, pool.Extends later → code.eval ⟨memory, later, row⟩ = word) :
    (inRegister code t provenance).Carries pool memory row ⟨t, provenance, word⟩ :=
  ⟨rfl, rfl, code, rfl, h⟩

/-- A register needs no loading. -/
theorem Carries.represents {v : Operand} {a : Value} (h : v.Carries pool memory row a) :
    v.Represents pool memory row (none, a) := by
  obtain ⟨code, hcode, -⟩ := h.eval
  refine .loadable (u := v) ?_ h.dataType ?_ h
  · simp only [isLiteral, hcode]
  · intro target
    simp only [loadAs, hcode]

/-- A register with a pooled constant, given the word its type reads out of the image. -/
theorem carries_pooled {slot size : Nat} {image : BitVec 128} {t : DataType} {word : Word}
    (hslot : pool.slots[slot]? = some image)
    (hword : ∀ (buffer : Buffer) (offset : BitVec 64),
      (∀ n ≤ 16, buffer.read n offset = image.setWidth (8 * n)) → t.wordAt buffer offset = word) :
    (inRegister (.load t (.pooled slot size)) t .const).Carries pool memory row
      ⟨t, .const, word⟩ := by
  refine carries_inRegister fun later hlater => hword _ _ fun n hn => ?_
  exact Code.read_pooled (hlater hslot) memory row hn size

theorem carries_insertSingle (bits : BitVec 32) (pool : LiteralPool) :
    (inRegister (.load .f32 (.pooled (LiteralPool.insertSingle bits pool).1 4)) .f32 .const).Carries
      (LiteralPool.insertSingle bits pool).2 memory row ⟨.f32, .const, .f32 bits⟩ := by
  refine carries_pooled (LiteralPool.insert_extends _ pool).2 fun buffer offset hread => ?_
  have h : buffer.read 4 offset = bits := by simp [hread 4 (by decide)]
  exact congrArg Word.f32 h

theorem carries_insertDouble (bits : BitVec 64) (pool : LiteralPool) :
    (inRegister (.load .f64 (.pooled (LiteralPool.insertDouble bits pool).1 8)) .f64 .const).Carries
      (LiteralPool.insertDouble bits pool).2 memory row ⟨.f64, .const, .f64 bits⟩ := by
  refine carries_pooled (LiteralPool.insert_extends _ pool).2 fun buffer offset hread => ?_
  have h : buffer.read 8 offset = bits := by simp [hread 8 (by decide)]
  exact congrArg Word.f64 h

theorem carries_insertWide (value : BitVec 128) (pool : LiteralPool) (size : Nat) :
    (inRegister (.load .i128 (.pooled (LiteralPool.insertWide value pool).1 size)) .i128
      .const).Carries
      (LiteralPool.insertWide value pool).2 memory row ⟨.i128, .const, .i128 value⟩ := by
  refine carries_pooled (LiteralPool.insert_extends _ pool).2 fun buffer offset hread => ?_
  have h : buffer.read 16 offset = value := by simp [hread 16 (by decide)]
  exact congrArg Word.i128 h

/-- What loading an integer literal for a target type leaves in the register and in the pool. -/
theorem loadInt_carries (target : DataType) (value : BitVec 64) (pool : LiteralPool) :
    pool.Extends (loadInt target value pool).2 ∧
      (loadInt target value pool).1.Carries (loadInt target value pool).2 memory row
        ((Literal.int value).valueAs target) := by
  cases target with
  | f32 => exact ⟨(LiteralPool.insert_extends _ pool).1, carries_insertSingle _ pool⟩
  | f64 => exact ⟨(LiteralPool.insert_extends _ pool).1, carries_insertDouble _ pool⟩
  | i128 => exact ⟨(LiteralPool.insert_extends _ pool).1, carries_insertWide _ pool 16⟩
  | i64 | stringHeader | binaryHeader | varcharHeader =>
    exact ⟨.refl pool, carries_inRegister fun _ _ => rfl⟩
  | i8 | i16 | i32 =>
    by_cases h : withinInt32 value = true
    · simp only [loadInt, Literal.valueAs, h, if_true]
      exact ⟨.refl pool, carries_inRegister fun _ _ => rfl⟩
    · simp only [loadInt, Literal.valueAs, h]
      exact ⟨.refl pool, carries_inRegister fun _ _ => rfl⟩

/-- What loading a float literal for a target type leaves in the register and in the pool. -/
theorem loadFloat_carries (target : DataType) (bits : BitVec 64) (pool : LiteralPool) :
    pool.Extends (loadFloat target bits pool).2 ∧
      (loadFloat target bits pool).1.Carries (loadFloat target bits pool).2 memory row
        ((Literal.float bits).valueAs target) := by
  by_cases h : target = .i64 ∨ target = .f64 ∨ withinSingle bits = false
  · have h' : ¬(target ≠ .i64 ∧ target ≠ .f64 ∧ withinSingle bits = true) := by
      rintro ⟨h1, h2, h3⟩
      simp [h1, h2, h3] at h
    simp only [loadFloat, Literal.valueAs, if_pos h, if_neg h']
    exact ⟨(LiteralPool.insert_extends _ pool).1, carries_insertDouble _ pool⟩
  · have h' : target ≠ .i64 ∧ target ≠ .f64 ∧ withinSingle bits = true := by
      simpa [not_or] using h
    simp only [loadFloat, Literal.valueAs, if_neg h, if_pos h']
    exact ⟨(LiteralPool.insert_extends _ pool).1, carries_insertSingle _ pool⟩

theorem loadAs_literal {v : Operand} {x : Literal} (hv : v.location = .literal x)
    (target : DataType) (pool : LiteralPool) :
    pool.Extends (v.loadAs target pool).2 ∧
      (v.loadAs target pool).1.Carries (v.loadAs target pool).2 memory row
        (x.valueAs target) := by
  cases x with
  | int value =>
    simp only [loadAs, hv]
    exact loadInt_carries target value pool
  | float bits =>
    simp only [loadAs, hv]
    exact loadFloat_carries target bits pool

/-- Loading yields the value represented, an inline literal's at the type asked for. -/
theorem Represents.loadAs {v : Operand} {x : Option Literal × Value}
    (h : v.Represents pool memory row x) (target : DataType) :
    pool.Extends (v.loadAs target pool).2 ∧
      (v.loadAs target pool).1.Carries (v.loadAs target pool).2 memory row
        (x.1.elim x.2 (·.valueAs target)) := by
  cases h with
  | literal hv => exact loadAs_literal hv target pool
  | loadable hv ht hload hu =>
    rw [hload]
    exact ⟨.refl pool, hu⟩

theorem Represents.load {v : Operand} {x : Option Literal × Value}
    (h : v.Represents pool memory row x) :
    pool.Extends (v.load pool).2 ∧ (v.load pool).1.Carries (v.load pool).2 memory row x.2 := by
  cases h with
  | literal hv => exact loadAs_literal hv v.dataType pool
  | loadable hv ht hload hu => exact (Represents.loadable hv ht hload hu).loadAs v.dataType

/-- The types two operands are loaded at give them the values they have beside each other. -/
theorem Represents.settle {l r : Operand} {x y : Option Literal × Value}
    (hl : l.Represents pool memory row x) (hr : r.Represents pool memory row y) :
    Value.settle x y =
      (x.1.elim x.2 (·.valueAs (loadTypes l r).1), y.1.elim y.2 (·.valueAs (loadTypes l r).2)) := by
  cases hl with
  | literal hlv =>
    have hl : l.isLiteral = true := by simp only [isLiteral, hlv]
    cases hr with
    | literal hrv =>
      have hr : r.isLiteral = true := by simp only [isLiteral, hrv]
      simp [Value.settle, loadTypes, hl, hr]
    | loadable hr hrt => simp [Value.settle, loadTypes, hl, hr, hrt]
  | loadable hl hlt =>
    cases hr with
    | literal hrv =>
      have hr : r.isLiteral = true := by simp only [isLiteral, hrv]
      simp [Value.settle, loadTypes, hl, hr, hlt]
    | loadable hr hrt => simp [Value.settle]

theorem Represents.loadPair {l r : Operand} {x y : Option Literal × Value}
    (hl : l.Represents pool memory row x) (hr : r.Represents pool memory row y) :
    pool.Extends (loadPair l r pool).2 ∧
      (loadPair l r pool).1.1.Carries (loadPair l r pool).2 memory row (Value.settle x y).1 ∧
      (loadPair l r pool).1.2.Carries (loadPair l r pool).2 memory row (Value.settle x y).2 := by
  obtain ⟨hfirst, hl'⟩ := hl.loadAs (loadTypes l r).1
  obtain ⟨hsecond, hr'⟩ := (hr.mono hfirst).loadAs (loadTypes l r).2
  rw [hl.settle hr]
  exact ⟨hfirst.trans hsecond, hl'.mono hsecond, hr'⟩

end Operand

end RowFilter
