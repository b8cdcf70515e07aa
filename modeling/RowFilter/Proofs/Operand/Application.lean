import RowFilter.Proofs.Emission.Agreement
import RowFilter.Proofs.Operand.Loading

/-!
# The values of operator results

Promotion and the operators, compared with their counterparts on values: from registers that carry
values they either fail alike, or yield registers that carry the counterpart's values.
-/

namespace RowFilter

def Code.unary : UnaryOp → Code → Code
  | .neg => .neg
  | .not => .not

def Code.binary (nullCheck : Bool) : BinaryOp → Code → Code → Code
  | .logic op => .logic op
  | .equality op => .equality op
  | .order op => .order op nullCheck
  | .arith op => .arith op nullCheck

/-- The type of a binary operator's result, from that of its left operand. -/
def BinaryOp.resultType (t : DataType) : BinaryOp → DataType
  | .logic _ => t
  | .equality _ | .order _ => .i32
  | .arith _ => Operand.arithType t

namespace Operand

open Emission (Agrees deciding)

variable {memory : Memory} {row : BitVec 64} {pool : LiteralPool} {nullCheck : Bool}
  {v l r : Operand} {a b : Value}

theorem register_eq_ok {code : Code} : v.register = .ok code ↔ v.location = .register code := by
  unfold Operand.register
  cases v.location <;> simp

theorem Carries.register (h : v.Carries pool memory row a) :
    ∃ code, v.register = .ok code ∧
      ∀ later, pool.Extends later → code.eval ⟨memory, later, row⟩ = a.word := by
  obtain ⟨code, hcode, heval⟩ := h.eval
  exact ⟨code, by simp only [Operand.register, hcode], heval⟩

/-- A promoted register carries the promoted value, which has the rank asked for. -/
theorem Carries.promote (nullCheck : Bool) (h : v.Carries pool memory row a) {source target : Rank}
    (hsource : a.dataType.rank = some source)
    (hconverts : source ≠ target → source.convertsTo target = true) :
    (∃ u, Operand.promote nullCheck source target v = .ok u ∧
        u.Carries pool memory row (a.promote nullCheck target)) ∧
      (a.promote nullCheck target).dataType.rank = some target := by
  by_cases heq : source = target
  · subst heq
    rw [Operand.promote, Value.promote, if_pos rfl, if_pos hsource]
    exact ⟨⟨v, rfl, h⟩, hsource⟩
  · obtain ⟨code, hcode, heval⟩ := h.register
    have hne : a.dataType.rank ≠ some target := by
      rw [hsource]
      exact fun hsome => heq (Option.some.inj hsome)
    simp only [Operand.promote, Value.promote, if_neg heq, if_neg hne, if_pos (hconverts heq),
      hcode, h.dataType, h.provenance]
    refine ⟨⟨_, rfl, carries_inRegister fun later hlater => ?_⟩, by cases target <;> rfl⟩
    rw [Code.eval, heval later hlater]

/-- Two registers brought to a common type carry the values brought there, which then have one
rank or none. -/
theorem unify_agrees (hl : l.Carries pool memory row a) (hr : r.Carries pool memory row b)
    (s : Emitter) :
    Agrees (fun (lr : Operand × Operand) s' (ab : Value × Value) => s' = s ∧
        lr.1.Carries pool memory row ab.1 ∧ lr.2.Carries pool memory row ab.2 ∧
        ab.1.dataType.rank = ab.2.dataType.rank)
      (deciding (Operand.unify nullCheck l r) s) (Value.unify nullCheck a b) := by
  have hpass : Agrees (fun (lr : Operand × Operand) s' (ab : Value × Value) => s' = s ∧
        lr.1.Carries pool memory row ab.1 ∧ lr.2.Carries pool memory row ab.2 ∧
        ab.1.dataType.rank = ab.2.dataType.rank)
      (deciding (if a.dataType = b.dataType then .ok (l, r)
        else .error (.typeMismatch a.dataType b.dataType)) s)
      (if a.dataType = b.dataType then .ok (a, b)
        else .error (.typeMismatch a.dataType b.dataType)) := by
    split
    next h => exact ⟨rfl, hl, hr, congrArg DataType.rank h⟩
    next => exact rfl
  unfold Operand.unify Value.unify
  rw [hl.dataType, hr.dataType]
  cases hra : a.dataType.rank with
  | none => exact hpass
  | some ra =>
    cases hrb : b.dataType.rank with
    | none => exact hpass
    | some rb =>
      by_cases heq : ra = rb
      · simp only [heq, if_true]
        exact ⟨rfl, hl, hr, by rw [hra, hrb, heq]⟩
      · obtain ⟨hconvl, hconvr⟩ := Rank.convertsTo_join ra rb
        obtain ⟨⟨l', hl', hcl⟩, hrl⟩ := hl.promote nullCheck hra hconvl
        obtain ⟨⟨r', hr', hcr⟩, hrr⟩ := hr.promote nullCheck hrb hconvr
        simp only [heq, if_false, hl', hr']
        exact ⟨rfl, hcl, hcr, hrl.trans hrr.symm⟩

/-- A unary operator on a register: it is emitted on the types that have it and refused on all
others. -/
theorem unary_eq {code : Code} (hcode : v.register = .ok code) (op : UnaryOp) :
    Operand.unary op v =
      if Value.supports v.dataType (.unary op) then
        .ok (inRegister (.unary op code) v.dataType v.provenance)
      else .error (.unsupportedOperation (.unary op) v.dataType) := by
  cases op with
  | neg =>
    simp only [Operand.unary, neg, hcode]
    cases v.dataType <;> rfl
  | not =>
    simp only [Operand.unary, Operand.not, hcode]
    cases v.dataType <;> rfl

/-- A binary operator on registers of one rank: it is emitted on the types that have it and refused
on all others. -/
theorem binary_eq {c d : Code} (hl : l.register = .ok c) (hr : r.register = .ok d)
    (hrank : l.dataType.rank = r.dataType.rank) (op : BinaryOp) :
    Operand.binary op nullCheck l r =
      if Value.supports l.dataType (.binary op) then
        .ok (inRegister (.binary nullCheck op c d) (op.resultType l.dataType)
          (l.provenance.join r.provenance))
      else .error (.unsupportedOperation (.binary op) l.dataType) := by
  cases op with
  | logic op =>
    have hint : r.dataType.isInt32 = l.dataType.isInt32 := by simp only [DataType.isInt32, hrank]
    simp only [Operand.binary, logic, hl, hr, hint]
    cases l.dataType <;> rfl
  | equality op => simp only [Operand.binary, equality, hl, hr]; rfl
  | order op =>
    simp only [Operand.binary, order, hl, hr]
    cases l.dataType <;> rfl
  | arith op =>
    simp only [Operand.binary, arith, hl, hr]
    cases l.dataType <;> rfl

theorem unary_agrees (op : UnaryOp) (h : v.Carries pool memory row a) (s : Emitter) :
    Agrees (fun u s' c => s' = s ∧ u.Carries pool memory row c)
      (deciding (Operand.unary op v) s) (Value.unary op a) := by
  obtain ⟨code, hcode, heval⟩ := h.register
  rw [unary_eq hcode, h.dataType, h.provenance]
  unfold Value.unary
  split
  next =>
    cases op with
    | neg =>
      exact ⟨rfl, carries_inRegister fun later hlater => congrArg Word.neg (heval later hlater)⟩
    | not =>
      exact ⟨rfl, carries_inRegister fun later hlater => congrArg Word.not (heval later hlater)⟩
  next => exact rfl

theorem binary_agrees (op : BinaryOp) (hl : l.Carries pool memory row a)
    (hr : r.Carries pool memory row b) (hrank : a.dataType.rank = b.dataType.rank) (s : Emitter) :
    Agrees (fun u s' c => s' = s ∧ u.Carries pool memory row c)
      (deciding (Operand.binary op nullCheck l r) s) (Value.binary op nullCheck a b) := by
  obtain ⟨c, hc, hevalc⟩ := hl.register
  obtain ⟨d, hd, hevald⟩ := hr.register
  have hrank' : l.dataType.rank = r.dataType.rank := by rw [hl.dataType, hr.dataType, hrank]
  rw [binary_eq hc hd hrank', Value.binary, hl.dataType, hl.provenance, hr.provenance]
  split
  next =>
    refine ⟨rfl, ?_⟩
    cases op
    all_goals
      refine carries_inRegister fun later hlater => ?_
      rw [Code.binary, Code.eval, hevalc later hlater, hevald later hlater]
  next => exact rfl

end Operand

end RowFilter
