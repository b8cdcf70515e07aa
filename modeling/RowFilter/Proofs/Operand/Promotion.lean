import RowFilter.Proofs.Expr.NullPropagation
import RowFilter.Proofs.Expr.OperandPair

/-!
# What promotion keeps

Two loaded operands of numeric types are brought to one rank, whichever of them comes first. Every
pair of ranks takes a route of its own, but each side of it is left alone or runs through one
conversion, and the five conversions have in common what matters: integers among themselves stay
what they are, with the null check a null remains one and nothing else becomes one, and without it
no integer of 32 bits becomes one that was none.

## Main definitions

- `DataType.Meets` — two types of operands that can be brought to a common rank.
- `Word.Converted` — a word in the place of another one.
- `Operand.Converted` — a register in the place of another one.

## Main statements

- `Word.converted_widen` — one conversion.
- `Operand.Loaded.exists_promote` — one side.
- `Operand.unify_loaded_converted` — both sides, in either order.
-/

namespace RowFilter

open BinaryFloat (Bits single double)

variable {nullCheck : Bool}

/-- The types of two operands that can be brought to a common rank: both are numeric, or they are
the same. -/
def DataType.Meets (s t : DataType) : Prop :=
  (s.rank.isSome = true ∧ t.rank.isSome = true) ∨ s = t

namespace Word

variable {s t : DataType} {a b : Word}

/-- A word of type `t` in the place of one of type `s`. Integers are kept among themselves, but for
a null under the null check. Under the null check the one word is null just in case the other is. A
word of the 32-bit family that is not null does not become so in any case. -/
structure Converted (nullCheck : Bool) (s t : DataType) (a b : Word) : Prop where
  regClass : b.regClass = t.regClass
  toInt : s.isInt = true → t.isInt = true → ¬ (nullCheck = true ∧ s.IsNull a) → b.toInt = a.toInt
  isNull : nullCheck = true → (t.IsNull b ↔ s.IsNull a)
  notNull : s.rank = some .int32 → ¬ s.IsNull a → ¬ t.IsNull b

theorem converted_self (h : a.regClass = t.regClass) : Converted nullCheck t t a a :=
  ⟨h, fun _ _ _ => rfl, fun _ => Iff.rfl, fun _ h => h⟩

/-- An integer is converted if the result is null where the gate of its type meets its null. -/
theorem Converted.of_gate {null : Bool} (hclass : b.regClass = t.regClass)
    (hs : s.IsNull a ↔ s.hasNullSentinel = true ∧ null = true)
    (ht : t.IsNull b ↔ (s.nullGate nullCheck && null) = true)
    (hn : t.isInt = true → (s.nullGate nullCheck && null) = false → b.toInt = a.toInt) :
    Converted nullCheck s t a b := by
  have hgate : (s.nullGate nullCheck && null) = true ↔ nullCheck = true ∧ s.IsNull a := by
    rw [DataType.nullGate, Bool.and_eq_true, Bool.and_eq_true, hs, and_assoc]
  rw [hgate] at ht
  refine ⟨hclass, fun _ htint hkeep => hn htint ?_, fun hcheck => ?_, fun _ hnull => ?_⟩
  · exact Bool.eq_false_iff.2 fun h => hkeep (hgate.1 h)
  · rw [ht, and_iff_right hcheck]
  · exact fun h => hnull (ht.1 h).2

/-- A word of the 32-bit family, at each of the ranks above. -/
theorem converted_widen_i32 (hs : s.rank = some .int32) (a : BitVec 32) {target : Rank}
    (hconverts : Rank.int32.convertsTo target = true) :
    Converted nullCheck s target.dataType (.i32 a)
      (widen (s.nullGate nullCheck) target.regClass (.i32 a)) := by
  cases target with
  | int32 => cases hconverts
  | int64 =>
    refine .of_gate rfl (DataType.isNull_i32_iff hs a) ?_ fun _ hkeep => ?_
    · rw [← Integer.isNull_widen]
      exact DataType.isNull_i64_iff _
    · refine (Integer.toInt_widen nullCheck s.hasNullSentinel a).resolve_right fun h => ?_
      rw [Integer.isNull_widen] at h
      exact Bool.false_ne_true (hkeep.symm.trans (Bool.and_eq_true_iff.1 h).2)
  | float32 =>
    refine .of_gate rfl (DataType.isNull_i32_iff hs a) ?_ nofun
    rw [← Floating.isNaN_ofInteger]
    exact DataType.isNull_f32_iff _
  | float64 =>
    refine .of_gate rfl (DataType.isNull_i32_iff hs a) ?_ nofun
    rw [← Floating.isNaN_ofInteger]
    exact DataType.isNull_f64_iff _

/-- A 64-bit integer, at the rank above. -/
theorem converted_widen_i64 (a : BitVec 64) :
    Converted nullCheck .i64 .f64 (.i64 a)
      (widen (DataType.i64.nullGate nullCheck) .f64 (.i64 a)) := by
  refine .of_gate rfl ((DataType.isNull_i64_iff a).trans (and_iff_right rfl).symm) ?_ nofun
  rw [← Floating.isNaN_ofInteger]
  exact DataType.isNull_f64_iff _

/-- A 32-bit float, at the rank above. The null check plays no part. -/
theorem converted_widen_f32 (gate : Bool) (a : Bits single) :
    Converted nullCheck .f32 .f64 (.f32 a) (widen gate .f64 (.f32 a)) := by
  have hnull : DataType.f64.IsNull (widen gate .f64 (.f32 a)) ↔ DataType.f32.IsNull (.f32 a) := by
    rw [DataType.isNull_f32_iff, ← BinaryFloat.isNaN_convert single double a]
    exact DataType.isNull_f64_iff _
  exact ⟨rfl, nofun, fun _ => hnull, nofun⟩

/-- Every conversion converts. -/
theorem converted_widen (nullCheck : Bool) {source target : Rank} (hs : s.rank = some source)
    (hclass : a.regClass = s.regClass) (hconverts : source.convertsTo target = true) :
    Converted nullCheck s target.dataType a
      (a.widen (s.nullGate nullCheck) target.regClass) := by
  rw [DataType.regClass_of_rank hs] at hclass
  -- The rank settles the class of the word, and all but the lowest settle the type and the target.
  cases source with
  | int32 =>
    cases a <;> cases hclass
    exact converted_widen_i32 hs _ hconverts
  | int64 =>
    cases a <;> cases hclass
    cases target <;> cases hconverts
    cases s <;> cases hs
    exact converted_widen_i64 _
  | float32 =>
    cases a <;> cases hclass
    cases target <;> cases hconverts
    cases s <;> cases hs
    exact converted_widen_f32 _ _
  | float64 => cases target <;> cases hconverts

end Word

namespace Operand

variable {given : Code → Prop} {v u l r l' r' : Operand}

/-- A register in the place of another one: the provenance stays, and on every frame the word is
converted. -/
structure Converted (nullCheck : Bool) (v u : Operand) : Prop where
  provenance : u.provenance = v.provenance
  word : ∃ c d, v.location = .register c ∧ u.location = .register d ∧
    ∀ frame, Word.Converted nullCheck v.dataType u.dataType (c.eval frame) (d.eval frame)

theorem Loaded.converted_self (h : v.Loaded given) : v.Converted nullCheck v := by
  obtain ⟨code, hcode, hclass, -⟩ := h
  refine ⟨rfl, code, code, hcode, hcode, fun frame => Word.converted_self ?_⟩
  rw [Code.regClass_eval, hclass]

/-- A loaded operand is promoted to every rank that its own one converts to, and converted thereby.
-/
theorem Loaded.exists_promote (h : v.Loaded given) (nullCheck : Bool) {source target : Rank}
    (hsource : v.dataType.rank = some source)
    (hconverts : source ≠ target → source.convertsTo target = true) :
    ∃ u, Operand.promote nullCheck source target v = .ok u ∧ u.dataType.rank = some target ∧
      v.Converted nullCheck u := by
  by_cases heq : source = target
  · subst heq
    exact ⟨v, if_pos rfl, hsource, h.converted_self⟩
  · obtain ⟨code, hcode, hclass, -⟩ := h
    simp only [Operand.promote, if_neg heq, if_pos (hconverts heq), register_eq_ok.2 hcode]
    refine ⟨_, rfl, by cases target <;> rfl, rfl, code, _, hcode, rfl, fun frame => ?_⟩
    exact Word.converted_widen nullCheck hsource ((Code.regClass_eval frame code).trans hclass)
      (hconverts heq)

/-- Two numeric operands are both promoted to the join of their ranks. -/
theorem unify_of_promote {a b : Rank} (hl : l.dataType.rank = some a)
    (hr : r.dataType.rank = some b) (hl' : promote nullCheck a (a.join b) l = .ok l')
    (hr' : promote nullCheck b (a.join b) r = .ok r') : unify nullCheck l r = .ok (l', r') := by
  simp only [unify, hl, hr]
  by_cases heq : a = b
  · subst heq
    rw [a.join_self, promote, if_pos rfl] at hl' hr'
    rw [if_pos rfl]
    exact congrArg₂ (fun l r => Except.ok (l, r)) (Except.ok.inj hl') (Except.ok.inj hr')
  · rw [if_neg heq, hl', hr']
    rfl

/-- Beside a type without a rank only the same type passes. -/
theorem unify_of_rank_none (h : l.dataType.rank = none ∨ r.dataType.rank = none)
    (nullCheck : Bool) : unify nullCheck l r = if l.dataType = r.dataType then .ok (l, r)
      else .error (.typeMismatch l.dataType r.dataType) := by
  unfold unify
  split
  next a b hl hr =>
    rcases h with h | h
    · cases h.symm.trans hl
    · cases h.symm.trans hr
  next => rfl

/-- Types that do not meet are refused. -/
theorem unify_of_not_meets (h : ¬ l.dataType.Meets r.dataType) :
    unify nullCheck l r = .error (.typeMismatch l.dataType r.dataType) := by
  obtain ⟨hranks, hne⟩ := not_or.1 h
  have hnone : l.dataType.rank = none ∨ r.dataType.rank = none := by
    rw [← Option.not_isSome_iff_eq_none, ← Option.not_isSome_iff_eq_none]
    exact Decidable.not_and_iff_not_or_not.1 hranks
  rw [unify_of_rank_none hnone, if_neg hne]

/-- Loaded operands whose types meet are brought to a common rank, the join of their ranks if they
have ranks, in whichever order they come. -/
theorem exists_unify (hl : l.Loaded given) (hr : r.Loaded given)
    (h : l.dataType.Meets r.dataType) (nullCheck : Bool) :
    ∃ l' r', unify nullCheck l r = .ok (l', r') ∧ unify nullCheck r l = .ok (r', l') ∧
      l'.dataType.rank = r'.dataType.rank ∧
      (∀ a b, l.dataType.rank = some a → r.dataType.rank = some b →
        l'.dataType.rank = some (a.join b)) ∧
      l.Converted nullCheck l' ∧ r.Converted nullCheck r' := by
  by_cases hnone : l.dataType.rank = none ∨ r.dataType.rank = none
  · have ht : l.dataType = r.dataType := by
      rcases h with ⟨hla, hrb⟩ | ht
      · rcases hnone with hnone | hnone
        · rw [hnone] at hla
          cases hla
        · rw [hnone] at hrb
          cases hrb
      · exact ht
    have hlr := unify_of_rank_none hnone nullCheck
    have hrl := unify_of_rank_none hnone.symm nullCheck
    rw [if_pos ht] at hlr
    rw [if_pos ht.symm] at hrl
    refine ⟨l, r, hlr, hrl, congrArg _ ht, fun a b ha hb => ?_, hl.converted_self,
      hr.converted_self⟩
    rcases hnone with hnone | hnone
    · cases hnone.symm.trans ha
    · cases hnone.symm.trans hb
  · obtain ⟨hla, hrb⟩ := not_or.1 hnone
    obtain ⟨a, ha⟩ := Option.ne_none_iff_exists'.1 hla
    obtain ⟨b, hb⟩ := Option.ne_none_iff_exists'.1 hrb
    obtain ⟨hconvl, hconvr⟩ := Rank.convertsTo_join a b
    obtain ⟨l', hl', hla', hcl⟩ := hl.exists_promote nullCheck ha hconvl
    obtain ⟨r', hr', hrb', hcr⟩ := hr.exists_promote nullCheck hb hconvr
    refine ⟨l', r', unify_of_promote ha hb hl' hr', ?_, hla'.trans hrb'.symm, ?_, hcl, hcr⟩
    · rw [Rank.join_comm] at hl' hr'
      exact unify_of_promote hb ha hr' hl'
    · intro a' b' ha' hb'
      cases ha.symm.trans ha'
      cases hb.symm.trans hb'
      exact hla'

/-- Two loaded operands. They can be brought to a common rank if and only if both are numeric or
they are of one type; otherwise the error names the type of the left operand and then that of the
right one.

Brought to a common rank, they both have it, it is the join of their ranks if they are numeric, and
the exchanged operands are brought to the same two registers. Each side keeps its provenance, and on
every frame it is converted: an integer stays that integer but for a null under the null check, null
remains null under the null check and nothing else becomes null, and a value of the 32-bit family
that is not null becomes null under no flag. -/
theorem unify_loaded_converted (hl : l.Loaded given) (hr : r.Loaded given) (nullCheck : Bool) :
    ((∃ lr, unify nullCheck l r = .ok lr) ↔ l.dataType.Meets r.dataType) ∧
    (¬ l.dataType.Meets r.dataType →
      unify nullCheck l r = .error (.typeMismatch l.dataType r.dataType)) ∧
    ∀ l' r', unify nullCheck l r = .ok (l', r') →
      unify nullCheck r l = .ok (r', l') ∧ l'.dataType.rank = r'.dataType.rank ∧
      (∀ a b, l.dataType.rank = some a → r.dataType.rank = some b →
        l'.dataType.rank = some (a.join b)) ∧
      l.Converted nullCheck l' ∧ r.Converted nullCheck r' := by
  have hmeets : ∀ lr, unify nullCheck l r = .ok lr → l.dataType.Meets r.dataType := by
    intro lr hlr
    by_contra h
    cases hlr.symm.trans (unify_of_not_meets h)
  refine ⟨⟨fun ⟨lr, hlr⟩ => hmeets lr hlr, fun h => ?_⟩, unify_of_not_meets, fun l' r' hlr => ?_⟩
  · obtain ⟨l', r', hlr, -⟩ := exists_unify hl hr h nullCheck
    exact ⟨_, hlr⟩
  · obtain ⟨l'', r'', hlr', hunified⟩ := exists_unify hl hr (hmeets _ hlr) nullCheck
    cases hlr.symm.trans hlr'
    exact hunified

/-- A 64-bit variable beside a 32-bit float one: both sides move, and the null in the first of them
arrives as a double that is not a number. -/
theorem unify_loaded_converted_doubles :
    let l : Operand := inRegister (.load .i64 (.slot 0 8)) .i64 .memory
    let r : Operand := inRegister (.load .f32 (.slot 1 4)) .f32 .memory
    let frame : Frame :=
      ⟨⟨fun _ _ => 0, fun _ _ => 0, Buffer.ofBytes #[0, 0, 0, 0, 0, 0, 0, 0x80]⟩, {}, 0⟩
    l.Loaded (fun _ => False) ∧ r.Loaded (fun _ => False) ∧
      ∃ c d, unify true l r = .ok (inRegister c .f64 .memory, inRegister d .f64 .memory) ∧
        unify true r l = .ok (inRegister d .f64 .memory, inRegister c .f64 .memory) ∧
        DataType.f64.IsNull (c.eval frame) := by
  intro l r frame
  have hl : l.Loaded (fun _ => False) := loaded_inRegister rfl (.load _ _)
  have hr : r.Loaded (fun _ => False) := loaded_inRegister rfl (.load _ _)
  obtain ⟨hswap, -, -, ⟨-, word⟩, -⟩ := (unify_loaded_converted hl hr true).2.2 _ _ rfl
  obtain ⟨c, d, hc, hd, hconverted⟩ := word
  cases hc
  cases hd
  exact ⟨hl, hr, _, _, rfl, hswap, ((hconverted frame).isNull rfl).2 (.i64 (by decide))⟩

end Operand

end RowFilter
