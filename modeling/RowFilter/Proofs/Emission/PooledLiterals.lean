import RowFilter.Proofs.Emission.Postfix
import RowFilter.Proofs.LiteralPool.Sharing

/-!
# The literals a compiled stream has pooled

The emitter changes its pool by insertions of constants and in no other way. So the pool of a
predicate is one that constants were inserted into one after the other, and what is known of such
pools holds of it: no slot is ever shared by different images or written again. Every literal
therefore reads back as itself, and the predicate computes the value of its expression, however many
constants are pooled after it.

That an action of the emitter only inserts is closed under sequencing, so each construct of the
emitter is looked at once.

## Main definitions

- `LiteralPool.Grows` — one pool comes from another by insertions.
- `Emission.Inserts` — an action changes the pool by insertions only.
- `Operand.Yields` — an operand that has the same word for each target type, whatever is pooled.

## Main statements

- `Emission.step_inserts`, `Emission.run_inserts` — one instruction, and a stream of them.
- `Operand.ofLiteral_yields` — a literal reads back as itself.
- `LiteralPool.insertAll_faithful` — pools, and the literals of compiled streams.
-/

namespace RowFilter

open LiteralPool (Constant)

namespace LiteralPool

variable {a b c pool later : LiteralPool}

/-- The later pool is what some further insertions make of the pool. -/
def Grows (pool later : LiteralPool) : Prop :=
  ∃ constants, later = (insertAll constants pool).2

theorem Grows.refl (pool : LiteralPool) : pool.Grows pool :=
  ⟨[], rfl⟩

theorem Grows.trans (hab : a.Grows b) (hbc : b.Grows c) : a.Grows c := by
  obtain ⟨first, rfl⟩ := hab
  obtain ⟨rest, rfl⟩ := hbc
  exact ⟨first ++ rest, (insertAll_append first rest a).symm⟩

theorem Grows.insert (c : Constant) (pool : LiteralPool) : pool.Grows (c.insert pool).2 :=
  ⟨[c], rfl⟩

theorem Grows.extends (h : pool.Grows later) : pool.Extends later := by
  obtain ⟨constants, rfl⟩ := h
  exact insertAll_extends constants pool

end LiteralPool

namespace Operand

theorem loadInt_grows (target : DataType) (value : BitVec 64) (pool : LiteralPool) :
    pool.Grows (loadInt target value pool).2 := by
  cases target with
  | f32 => exact .insert (.single _) pool
  | f64 => exact .insert (.double _) pool
  | i128 => exact .insert (.wide _) pool
  | i64 | stringHeader | binaryHeader | varcharHeader => exact .refl pool
  | i8 | i16 | i32 =>
    simp only [loadInt]
    split <;> exact .refl pool

theorem loadFloat_grows (target : DataType) (bits : BitVec 64) (pool : LiteralPool) :
    pool.Grows (loadFloat target bits pool).2 := by
  unfold loadFloat
  split
  · exact .insert (.double _) pool
  · exact .insert (.single _) pool

/-- Only a literal that is loaded adds to the pool, and it does so by an insertion. -/
theorem loadAs_grows (target : DataType) (v : Operand) (pool : LiteralPool) :
    pool.Grows (v.loadAs target pool).2 := by
  unfold loadAs
  cases v.location with
  | literal x =>
    cases x with
    | int value => exact loadInt_grows target value pool
    | float bits => exact loadFloat_grows target bits pool
  | memory | register => exact .refl pool

theorem loadPair_grows (l r : Operand) (pool : LiteralPool) :
    pool.Grows (loadPair l r pool).2 :=
  (loadAs_grows (loadTypes l r).1 l pool).trans (loadAs_grows (loadTypes l r).2 r _)

end Operand

namespace Emission

variable {α β : Type} {nullCheck : Bool}

/-- The emitter as an action leaves it, whether it succeeds or fails. -/
def emitterAfter : EStateM.Result CompileError Emitter α → Emitter
  | .ok _ s | .error _ s => s

/-- An action that changes the pool by insertions only. -/
def Inserts (action : Emission α) : Prop :=
  ∀ s : Emitter, s.pool.Grows (emitterAfter (action s)).pool

theorem Inserts.of_ok {action : Emission α} (h : Inserts action) {s s' : Emitter} {a : α}
    (haction : action s = .ok a s') : s.pool.Grows s'.pool := by
  have hs := h s
  rwa [haction] at hs

/-- The rule for a sequence. -/
theorem Inserts.bind {action : Emission α} {f : α → Emission β} (h : Inserts action)
    (hf : ∀ a, Inserts (f a)) : Inserts (action >>= f) := by
  intro s
  have hs := h s
  change s.pool.Grows (emitterAfter (EStateM.bind action f s)).pool
  unfold EStateM.bind
  cases haction : action s with
  | ok a s₁ =>
    rw [haction] at hs
    exact hs.trans (hf a s₁)
  | error e s₁ =>
    rw [haction] at hs
    exact hs

theorem inserts_pure (a : α) : Inserts (pure a) :=
  fun s => .refl s.pool

theorem inserts_throw (e : CompileError) : Inserts (throw e : Emission α) :=
  fun s => .refl s.pool

theorem inserts_deciding (result : Except CompileError α) : Inserts (deciding result) := by
  intro s
  cases result <;> exact .refl s.pool

theorem inserts_push (v : Operand) : Inserts (push v) :=
  fun s => .refl s.pool

theorem inserts_pop (position : Nat) : Inserts (pop position) := by
  intro s
  unfold pop
  cases s.stack <;> exact .refl s.pool

theorem inserts_pooling {action : StateM LiteralPool α}
    (h : ∀ pool : LiteralPool, pool.Grows (action pool).2) : Inserts (pooling action) :=
  fun s => h s.pool

theorem inserts_ofLiteral (i : Instruction) : Inserts (poolingOrFail (Operand.ofLiteral i)) := by
  intro s
  unfold poolingOrFail Operand.ofLiteral
  cases i.dataType with
  | error e => exact .refl s.pool
  | ok t =>
    cases t with
    | i128 => exact .insert (.wide _) s.pool
    | _ => exact .refl s.pool

theorem inserts_leafOperand (op : LeafOp) (i : Instruction) : Inserts (leafOperand op i) := by
  cases op with
  | var | column => exact (inserts_deciding _).bind fun _ => inserts_deciding _
  | literal => exact inserts_ofLiteral i

theorem inserts_unary (op : UnaryOp) (position : Nat) : Inserts (unary op position) := by
  apply (inserts_pop position).bind
  intro v
  apply (inserts_pooling (v.loadAs_grows v.dataType)).bind
  intro u
  exact inserts_deciding (Operand.unary op u)

theorem inserts_binary (op : BinaryOp) (position : Nat) :
    Inserts (binary op nullCheck position) := by
  apply (inserts_pop position).bind
  intro r
  apply (inserts_pop position).bind
  intro l
  apply (inserts_pooling (l.loadPair_grows r)).bind
  intro lr
  apply (inserts_deciding (Operand.unify nullCheck lr.1 lr.2)).bind
  intro lr'
  exact inserts_deciding (Operand.binary op nullCheck lr'.1 lr'.2)

/-- One instruction changes the pool by insertions only. -/
theorem step_inserts (position : Nat) (i : Instruction) : Inserts (step nullCheck position i) := by
  unfold step
  cases i.opcode with
  | invalid => exact inserts_throw _
  | ret => exact inserts_pure ()
  | leaf op => exact (inserts_leafOperand op i).bind inserts_push
  | unary op => exact (inserts_unary op position).bind inserts_push
  | binary op => exact (inserts_binary op position).bind inserts_push

/-- A stream changes the pool by insertions only. -/
theorem run_inserts (position : Nat) (stream : List Instruction) :
    Inserts (run nullCheck position stream) := by
  induction stream generalizing position with
  | nil => exact inserts_pure ()
  | cons i rest ih =>
    unfold run
    split
    · exact inserts_pure ()
    · exact (step_inserts position i).bind fun _ => ih (position + 1)

end Emission

/-- The pool of a predicate comes from an empty one by insertions. -/
theorem Predicate.grows_of_compile {nullCheck : Bool} {stream : List Instruction} {p : Predicate}
    (h : compile nullCheck stream = .ok p) : LiteralPool.empty.Grows p.pool := by
  obtain ⟨top, s, code, hemit, -, rfl⟩ := compile_eq_ok_iff.1 h
  obtain ⟨hrun, -⟩ := Emission.emit_eq_ok_iff.1 hemit
  exact ((Emission.run_inserts 0 _).of_ok hrun).trans (top.loadAs_grows top.dataType s.pool)

/-- The word a literal of a type has in a register where a target type asks for it. A wide literal
has that of its own type everywhere. -/
def Instruction.literalWord (i : Instruction) (t target : DataType) : Word :=
  match t with
  | .i128 => .i128 i.payload.wide
  | .f32 | .f64 => ((Literal.float i.payload.double).valueAs target).word
  | _ => ((Literal.int i.payload.low).valueAs target).word

namespace Operand

variable {pool : LiteralPool} {v : Operand}

/-- Loaded for a target type, at once or after further insertions, the operand is in a register
whose code computes the word given for that type, however many constants are pooled after it. -/
def Yields (pool : LiteralPool) (v : Operand) (word : DataType → Word) : Prop :=
  ∀ target now, pool.Grows now → ∃ code, (v.loadAs target now).1.location = .register code ∧
    ∀ later, (v.loadAs target now).2.Grows later →
      ∀ memory row, code.eval ⟨memory, later, row⟩ = word target

/-- An operand that represents one value on all data yields it. -/
theorem yields_of_represents {x : Option Literal × Value}
    (h : ∀ memory row, v.Represents pool memory row x) :
    v.Yields pool fun target => (x.1.elim x.2 (·.valueAs target)).word := by
  intro target now hnow
  have hloaded (memory : Memory) (row : BitVec 64) :=
    (((h memory row).mono hnow.extends).loadAs target).2
  -- The code is the same on all data, so any data will do to find it.
  obtain ⟨code, hcode, -⟩ := (hloaded Emission.zeroMemory 0).eval
  refine ⟨code, hcode, fun later hlater memory row => ?_⟩
  obtain ⟨code', hcode', heval⟩ := (hloaded memory row).eval
  obtain rfl : code = code' := Location.register.inj (hcode.symm.trans hcode')
  exact heval later hlater.extends

/-- A literal yields its own word for each target type, whatever is in the pool already. -/
theorem ofLiteral_yields {i : Instruction} {t : DataType} (h : i.dataType = .ok t)
    (pool : LiteralPool) :
    ∃ v now, ofLiteral i pool = .ok (v, now) ∧ v.Yields now (i.literalWord t) := by
  have hinline (x : Literal) : (⟨.literal x, t, .const⟩ : Operand).Yields pool
      fun target => (x.valueAs target).word :=
    yields_of_represents (x := (some x, x.valueAs t)) fun _ _ => .literal rfl
  unfold ofLiteral
  rw [h]
  cases t with
  | i128 =>
    exact ⟨_, _, rfl, yields_of_represents fun _ _ => represents_pooled i.payload.wide pool⟩
  | f32 | f64 => exact ⟨_, _, rfl, hinline (.float i.payload.double)⟩
  | _ => exact ⟨_, _, rfl, hinline (.int i.payload.low)⟩

end Operand

namespace LiteralPool

/-- Constants of any types inserted into an empty pool, one after the other.

Two insertions return one slot just in case the constants have the same sixteen bytes, and there are
as many slots as there are such contents. Every slot that was returned holds the bytes of its
constant at the end and is read back as that constant, bit for bit. A pool with an index hands out
the same slots.

Emission adds to its pool in no other way. So every literal that is emitted against the pool yields
its own word, and a compiled stream computes the value of its expression, however many constants are
pooled after it. -/
theorem insertAll_faithful (constants : List Constant) :
    let slots := (insertAll constants empty).1
    let pool := (insertAll constants empty).2
    (∀ a ∈ constants.zip slots, ∀ b ∈ constants.zip slots,
      a.2 = b.2 ↔ a.1.bytes = b.1.bytes) ∧
    pool.size = (constants.map Constant.bytes).toFinset.card ∧
    List.Forall₂ (fun c slot => slot < pool.size ∧ pool.bytes slot = c.bytes ∧
      ∀ memory row, (c.code slot).eval ⟨memory, pool, row⟩ = c.word) constants slots ∧
    ((IndexedPool.insertAll constants .empty).1, (IndexedPool.insertAll constants .empty).2.pool) =
      (slots, pool) ∧
    (∀ i t, i.dataType = .ok t →
      ∃ v now, Operand.ofLiteral i pool = .ok (v, now) ∧ v.Yields now (i.literalWord t)) ∧
    ∀ nullCheck stream p, Predicate.compile nullCheck stream = .ok p →
      empty.Grows p.pool ∧
      ∃ (forest : List Expr) (e : Expr), beforeRet stream = Expr.spelling forest ++ e.stream ∧
        ∀ later, p.pool.Grows later → ∀ memory row, e.value nullCheck memory row =
          .ok ⟨p.dataType, p.provenance, p.code.eval ⟨memory, later, row⟩⟩ := by
  intro slots pool
  have hholds : List.Forall₂ (fun c slot => pool.slots[slot]? = some c.image) constants slots :=
    insertAll_holds constants empty
  have hzip {a : Constant × Nat} (ha : a ∈ constants.zip slots) :
      pool.slots[a.2]? = some a.1.image := List.forall₂_zip hholds ha
  refine ⟨fun a ha b hb => ?_, size_insertAll constants, hholds.imp fun c slot hc => ?_,
    IndexedPool.insertAll_eq constants .empty, fun i t ht => Operand.ofLiteral_yields ht pool,
    fun nullCheck stream p hp => ?_⟩
  · rw [← Constant.image_eq_iff]
    constructor
    · intro h
      exact Option.some.inj ((hzip ha).symm.trans (h ▸ hzip hb))
    · intro h
      exact slot_unique_insertAll constants (hzip ha) (h ▸ hzip hb)
  · exact ⟨(Array.getElem?_eq_some_iff.1 hc).1, Constant.bytes_slot hc, Constant.eval_code hc⟩
  · obtain ⟨forest, e, hstream, hvalue⟩ := Predicate.exists_expr_of_compile_extends hp
    exact ⟨Predicate.grows_of_compile hp, forest, e, hstream,
      fun later hlater memory row => hvalue memory row later hlater.extends⟩

/-- One and a half is pooled once as a double, and as a single it shares a slot with the integer of
that bit pattern. A not-a-number keeps its payload and a zero its sign. A column that is tested
against one and a half compiles to a predicate with one slot. -/
theorem insertAll_faithful_sharing :
    let constants : List Constant := [.double 0x3FF8000000000000, .single 0x3FC00000,
      .double 0x3FF8000000000000, .wide 0x3FC00000, .single 0x7FA00001, .double 0x8000000000000000]
    let pool := (insertAll constants empty).2
    let e := Expr.binary (.equality .eq) 0 (.int 0) (.leaf .column 5 (.int 0))
      (.leaf .literal 5 (.float 0x3FF8000000000000))
    (insertAll constants empty).1 = [0, 1, 0, 1, 2, 3] ∧ pool.size = 4 ∧
      (∀ memory row, (Constant.code (.single 0x7FA00001) 2).eval ⟨memory, pool, row⟩ =
        .f32 0x7FA00001) ∧
      (∀ memory row, (Constant.code (.double 0x8000000000000000) 3).eval ⟨memory, pool, row⟩ =
        .f64 0x8000000000000000) ∧
      ∃ p, Predicate.compile true e.stream = .ok p ∧ p.pool.size = 1 ∧ empty.Grows p.pool := by
  intro constants pool e
  obtain ⟨-, hsize, hholds, -, -, hcompile⟩ := insertAll_faithful constants
  have hslots : (insertAll constants empty).1 = [0, 1, 0, 1, 2, 3] := by decide +kernel
  rw [hslots] at hholds
  obtain ⟨-, -, hnan⟩ := hholds.get (i := 4) (by decide) (by decide)
  obtain ⟨-, -, hzero⟩ := hholds.get (i := 5) (by decide) (by decide)
  obtain ⟨hgrows, -⟩ := hcompile true e.stream _ rfl
  exact ⟨hslots, hsize, hnan, hzero, _, rfl, by decide +kernel, hgrows⟩

end LiteralPool

end RowFilter
