import RowFilter.Proofs.Arith.Null
import RowFilter.Proofs.Comparison.Registers

/-!
# Comparing two float registers

What the six comparisons make of two floats in registers of one format. Equality is tolerant and the
order comparisons are put together from it and the native strict comparison, so everything about
them follows from two facts: of two numbers one is below the other or they are equal, and nothing is
below or above a float that is not a number.

## Main definitions

- `Comparison.FloatLaws` — how the six results hang together.
- `Word.SameFormat` — two float registers of one format.

## Main statements

- `BinaryFloat.trichotomy` — the native comparisons of two numbers.
- `Floating.near_of_isNaN_ne`, `Floating.near_of_isNaN` — tolerant equality beside not-a-number.
- `Word.SameFormat.floatLaws` — the laws.
-/

namespace RowFilter

namespace BinaryFloat

open Float.Model (Format UnpackedFloat)

variable {f : Format} {a b : Bits f}

theorem lt_eq_compare (a b : Bits f) :
    lt a b = (UnpackedFloat.compare (unpack f a) (unpack f b) == some .lt) :=
  rfl

theorem eq_eq_compare (a b : Bits f) :
    eq a b = (UnpackedFloat.compare (unpack f a) (unpack f b) == some .eq) :=
  rfl

/-- Exchanged floats compare the other way round. -/
theorem compare_swap (u v : UnpackedFloat) :
    (UnpackedFloat.compare u v).map Ordering.swap = UnpackedFloat.compare v u := by
  cases u with
  | notANumber => cases v <;> rfl
  | infinity s =>
    cases v with
    | infinity t => cases s <;> cases t <;> rfl
    | notANumber | zero | finite => cases s <;> rfl
  | zero s =>
    cases v with
    | notANumber | zero => rfl
    | infinity t | finite t => cases t <;> rfl
  | finite s m e =>
    cases v with
    | notANumber => rfl
    | infinity t => cases t <;> cases s <;> rfl
    | zero => cases s <;> rfl
    | finite t n k =>
      have hswap : ((compare e k).then (compare m n)).swap = (compare k e).then (compare n m) := by
        rw [Ordering.swap_then, ← Std.OrientedOrd.eq_swap, ← Std.OrientedOrd.eq_swap]
      cases s <;> cases t
      · exact congrArg (some ·.swap) hswap
      · rfl
      · rfl
      · exact congrArg some hswap

/-- Two numbers compare. -/
theorem exists_compare_eq {u v : UnpackedFloat} (hu : u.isNaN = false) (hv : v.isNaN = false) :
    ∃ o, UnpackedFloat.compare u v = some o := by
  cases u with
  | notANumber => cases hu
  | infinity s =>
    cases v with
    | notANumber => cases hv
    | infinity | zero | finite => cases s <;> exact ⟨_, rfl⟩
  | zero s =>
    cases v with
    | notANumber => cases hv
    | zero => exact ⟨_, rfl⟩
    | infinity t | finite t => cases t <;> exact ⟨_, rfl⟩
  | finite s =>
    cases v with
    | notANumber => cases hv
    | zero => cases s <;> exact ⟨_, rfl⟩
    | infinity t | finite t => cases s <;> cases t <;> exact ⟨_, rfl⟩

/-- Of two numbers one is below the other, or they are equal. -/
theorem trichotomy (ha : isNaN a = false) (hb : isNaN b = false) :
    (lt a b = true ∧ eq a b = false ∧ lt b a = false) ∨
      (lt a b = false ∧ eq a b = true ∧ lt b a = false) ∨
      (lt a b = false ∧ eq a b = false ∧ lt b a = true) := by
  obtain ⟨o, ho⟩ := exists_compare_eq ha hb
  have hswap := compare_swap (unpack f a) (unpack f b)
  rw [ho] at hswap
  rw [lt_eq_compare, lt_eq_compare, eq_eq_compare, ho, ← hswap]
  cases o with
  | lt => exact .inl ⟨rfl, rfl, rfl⟩
  | eq => exact .inr (.inl ⟨rfl, rfl, rfl⟩)
  | gt => exact .inr (.inr ⟨rfl, rfl, rfl⟩)

theorem compare_of_isNaN {u v : UnpackedFloat} (h : u = .notANumber ∨ v = .notANumber) :
    UnpackedFloat.compare u v = none := by
  rcases h with rfl | rfl
  · rfl
  · cases u <;> rfl

/-- Of two floats that differ in whether they are numbers one is not. -/
theorem isNaN_or_of_ne (h : isNaN a ≠ isNaN b) : isNaN a = true ∨ isNaN b = true := by
  cases ha : isNaN a <;> cases hb : isNaN b <;> simp_all

/-- What is not a number is not below anything, and nothing is below it. -/
theorem lt_of_isNaN (h : isNaN a = true ∨ isNaN b = true) : lt a b = false := by
  rw [lt_eq_compare, compare_of_isNaN (h.imp unpack_of_isNaN unpack_of_isNaN)]
  rfl

theorem eq_of_isNaN (h : isNaN a = true ∨ isNaN b = true) : eq a b = false := by
  rw [eq_eq_compare, compare_of_isNaN (h.imp unpack_of_isNaN unpack_of_isNaN)]
  rfl

theorem isNaN_abs (h : isNaN a = true) : isNaN (abs a) = true := by
  rw [abs, unpack_of_isNaN h, isNaN_pack]
  rfl

end BinaryFloat

namespace Floating

open BinaryFloat
open Float.Model (Format)

variable {f : Format} {a b : Bits f}

/-- A number is not near what is not a number: their distance is no number either. -/
theorem near_of_isNaN_ne (tolerance : Bits f) (h : isNaN a ≠ isNaN b) :
    near tolerance a b = false := by
  have hone := isNaN_or_of_ne h
  have hdistance : isNaN (abs (sub a b)) = true := by
    have hsub : sub a b = nan f := arith_eq_nan .sub hone
    exact isNaN_abs (hsub ▸ isNaN_nan f)
  have hboth : (isNaN a && isNaN b) = false := by
    cases ha : isNaN a <;> cases hb : isNaN b <;> simp_all
  rw [near, eq_of_isNaN hone, lt_of_isNaN (.inl hdistance), hboth]
  rfl

/-- Two floats that are not numbers are near each other. -/
theorem near_of_isNaN (tolerance : Bits f) (ha : isNaN a = true) (hb : isNaN b = true) :
    near tolerance a b = true := by
  rw [near, ha, hb, Bool.and_self, Bool.or_true]

/-- Only what is not a number is near what is not a number. -/
theorem near_nan (tolerance a : Bits f) : near tolerance a (nan f) = isNaN a := by
  cases h : isNaN a with
  | true => exact near_of_isNaN tolerance h (isNaN_nan f)
  | false =>
    apply near_of_isNaN_ne
    rw [h, isNaN_nan]
    exact Bool.false_ne_true

/-- A comparison of two floats of one format. -/
def compare (nullCheck : Bool) (tolerance : Bits f) (c : Comparison) (a b : Bits f) : Bool :=
  match c with
  | .equality .eq => near tolerance a b
  | .equality .ne => !near tolerance a b
  | .order op => order op nullCheck tolerance a b

end Floating

/-- How the results of the six comparisons of two floats hang together. Of two numbers one is less,
equal or greater, and the other two comparisons are made up of these three. What is not a number
differs from every number, and from itself in nothing; at most and at least hold of it and itself as
long as the null check is off. -/
structure Comparison.FloatLaws (nullCheck lhsNaN rhsNaN : Bool) (result : Comparison → Bool) :
    Prop where
  ne : result (equality .ne) = !result (equality .eq)
  partition : lhsNaN = false → rhsNaN = false →
    [result (order .lt), result (equality .eq), result (order .gt)].count true = 1 ∧
      result (order .le) = (result (order .lt) || result (equality .eq)) ∧
      result (order .ge) = (result (order .gt) || result (equality .eq))
  oneNaN : lhsNaN ≠ rhsNaN → ∀ c, result c = true ↔ c = equality .ne
  bothNaN : lhsNaN = true → rhsNaN = true →
    result (equality .eq) = true ∧ result (equality .ne) = false ∧
      result (order .lt) = false ∧ result (order .gt) = false ∧
      result (order .le) = !nullCheck ∧ result (order .ge) = !nullCheck

namespace Floating

open BinaryFloat
open Float.Model (Format)

variable {f : Format}

/-- The six comparisons obey the laws, whatever the tolerance. -/
theorem floatLaws_compare (nullCheck : Bool) (tolerance a b : Bits f) :
    Comparison.FloatLaws nullCheck (isNaN a) (isNaN b)
      (fun c => compare nullCheck tolerance c a b) where
  ne := rfl
  partition := by
    intro ha hb
    simp only [compare, order, related, ha, hb, Bool.or_self, Bool.and_false, Bool.not_false,
      Bool.and_true]
    -- Near floats are equal and nothing else; of others the native comparison decides.
    cases hnear : near tolerance a b with
    | true => exact ⟨rfl, rfl, rfl⟩
    | false =>
      have heq : eq a b = false := by
        rw [near, Bool.or_eq_false_iff, Bool.or_eq_false_iff] at hnear
        exact hnear.1.1
      rcases trichotomy ha hb with ⟨hlt, -, hgt⟩ | ⟨-, heq', -⟩ | ⟨hlt, -, hgt⟩
      · rw [hlt, hgt]
        exact ⟨rfl, rfl, rfl⟩
      · rw [heq] at heq'
        cases heq'
      · rw [hlt, hgt]
        exact ⟨rfl, rfl, rfl⟩
  oneNaN := by
    intro hne c
    have hone := isNaN_or_of_ne hne
    have hlt : lt a b = false := lt_of_isNaN hone
    have hgt : lt b a = false := lt_of_isNaN hone.symm
    have hnear := near_of_isNaN_ne tolerance hne
    rcases c with (_ | _) | (_ | _ | _ | _)
    all_goals simp [compare, order, related, hnear, hlt, hgt]
  bothNaN := by
    intro ha hb
    have hlt : lt a b = false := lt_of_isNaN (.inl ha)
    have hgt : lt b a = false := lt_of_isNaN (.inl hb)
    have hnear := near_of_isNaN tolerance ha hb
    simp [compare, order, related, hnear, hlt, hgt, ha, hb]

end Floating

namespace Word

/-- Two float registers of one format. -/
inductive SameFormat : Word → Word → Prop
  | f32 (a b : BinaryFloat.Bits BinaryFloat.single) : SameFormat (.f32 a) (.f32 b)
  | f64 (a b : BinaryFloat.Bits BinaryFloat.double) : SameFormat (.f64 a) (.f64 b)

/-- The six comparisons of two float registers obey the laws. -/
theorem SameFormat.floatLaws {a b : Word} (h : SameFormat a b) (nullCheck : Bool) :
    Comparison.FloatLaws nullCheck a.isNaN b.isNaN (fun c => compare nullCheck c a b) := by
  cases h with
  | f32 a b =>
    have hcompare : (fun c => compare nullCheck c (.f32 a) (.f32 b)) =
        fun c => Floating.compare nullCheck Floating.singleTolerance c a b := by
      funext c
      rcases c with (_ | _) | op <;> rfl
    rw [hcompare]
    exact Floating.floatLaws_compare nullCheck _ a b
  | f64 a b =>
    have hcompare : (fun c => compare nullCheck c (.f64 a) (.f64 b)) =
        fun c => Floating.compare nullCheck Floating.doubleTolerance c a b := by
      funext c
      rcases c with (_ | _) | op <;> rfl
    rw [hcompare]
    exact Floating.floatLaws_compare nullCheck _ a b

end Word

end RowFilter
