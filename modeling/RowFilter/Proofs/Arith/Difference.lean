import Mathlib
import RowFilter.Proofs.Arith.Null

/-!
# Differences of floats

The difference of two floats is zero only if they are equal, however close they are: it is a
multiple of the smallest number of the format, so rounding does not lose it.

## Main definitions

- `BinaryFloat.Fits` — the mantissas and exponents that a format has.
- `BinaryFloat.Representable` — the values that a format has, or is too small for.
- `BinaryFloat.Canonical` — the values as they are unpacked, each in its only form.

## Main statements

- `BinaryFloat.exists_round_eq` — a number that is no finer than the format does not round to zero.
- `BinaryFloat.sub_canonical` — the difference of two numbers before it is packed.
- `BinaryFloat.isNaN_mul_sub_infinity` — an exact comparison by arithmetic.
-/

namespace RowFilter.BinaryFloat

open Float.Model (Format UnpackedFloat totalExponent)
open Float.Model.UnpackedFloat (Sign ExtendedMantissa Accuracy shiftToTargetExponent
  roundWithAccuracy decreaseExponent unpackExponent unpackMantissa packComponents
  unpackExponent_packComponents unpackMantissa_packComponents)

variable {f : Format}

/-! ### Rounding -/

/-- The format has the mantissa and the exponent: the mantissa is not too long, and the exponent
is not below the smallest one. It is the only exponent for the number if equality holds. -/
def Fits (f : Format) (m : Nat) (e : Int) : Prop :=
  f.targetExponent (totalExponent m e) ≤ e

theorem fits_iff {m : Nat} {e : Int} :
    Fits f m e ↔ m.log2 < f.mantissaBits ∧ f.minExponent ≤ e := by
  rw [Fits, Format.targetExponent, totalExponent]
  omega

theorem mantissa_shiftRight (em : ExtendedMantissa) (k : Nat) :
    (em >>> k).mantissa = em.mantissa / 2 ^ k := by
  show (k.repeat ExtendedMantissa.shiftRightOne em).mantissa = _
  induction k with
  | zero => exact (Nat.div_one _).symm
  | succ k ih =>
    show (k.repeat ExtendedMantissa.shiftRightOne em).mantissa / 2 = _
    rw [ih, Nat.div_div_eq_div_mul, Nat.pow_succ]

theorem mantissa_ofMantissaAndAccuracy (m : Nat) (accuracy : Accuracy) :
    (ExtendedMantissa.ofMantissaAndAccuracy m accuracy).mantissa = m := by
  rcases accuracy with _ | (_ | _ | _) <;> rfl

theorem le_roundedMantissa (em : ExtendedMantissa) : em.mantissa ≤ em.roundedMantissa := by
  obtain ⟨m, roundBit, stickyBit⟩ := em
  cases roundBit <;> cases stickyBit <;>
    simp [ExtendedMantissa.roundedMantissa, ExtendedMantissa.accuracy, Accuracy.roundToNearestEven]

/-- A shift to the target exponent leaves at least one bit of the mantissa, and no more than the
format has. -/
theorem shiftToTargetExponent_fits {m : Nat} (hm : 0 < m) {e : Int} (he : f.minExponent ≤ e)
    (accuracy : Accuracy) :
    0 < (shiftToTargetExponent f m e accuracy).1.mantissa ∧
      Fits f (shiftToTargetExponent f m e accuracy).1.mantissa
        (shiftToTargetExponent f m e accuracy).2 := by
  generalize hk : (f.targetExponent (totalExponent m e) - e).toNat = k
  have hshift : shiftToTargetExponent f m e accuracy =
      (ExtendedMantissa.ofMantissaAndAccuracy m accuracy >>> k, e + k) := by
    rw [← hk]
    rfl
  have hbits : f.mantissaBits = 1 + f.mantissaBitsWithoutImplicit := rfl
  have hlow : k ≤ m.log2 := by
    rw [← hk, Format.targetExponent, totalExponent]
    omega
  have hhigh : m.log2 + 1 ≤ f.mantissaBits + k := by
    rw [← hk, Format.targetExponent, totalExponent]
    omega
  have hpos : 0 < m / 2 ^ k :=
    Nat.div_pos (Nat.le_trans (Nat.pow_le_pow_right Nat.two_pos hlow)
      (Nat.log2_self_le (Nat.ne_of_gt hm))) (Nat.two_pow_pos k)
  have hlt : m / 2 ^ k < 2 ^ f.mantissaBits := by
    rw [Nat.div_lt_iff_lt_mul (Nat.two_pow_pos k), ← Nat.pow_add]
    exact Nat.lt_of_lt_of_le Nat.lt_log2_self (Nat.pow_le_pow_right Nat.two_pos hhigh)
  rw [hshift, mantissa_shiftRight, mantissa_ofMantissaAndAccuracy, fits_iff]
  exact ⟨hpos, (Nat.log2_lt (Nat.ne_of_gt hpos)).2 hlt, by simp only; omega⟩

/-- A number whose last bit is no finer than the smallest number does not round to zero. -/
theorem exists_round_eq (sign : Sign) {m : Nat} (hm : 0 < m) {e : Int} (he : f.minExponent ≤ e) :
    ∃ m' e', ∃ h : 0 < m',
      UnpackedFloat.round f sign m e = .finite sign m' e' h ∧ Fits f m' e' := by
  generalize hk : (e - f.targetExponent (totalExponent m e)).toNat = k
  have hpos : 0 < m <<< k := by
    rw [Nat.shiftLeft_eq]
    exact Nat.mul_pos hm (Nat.two_pow_pos k)
  have hmin : f.minExponent ≤ e - k := by
    rw [← hk, Format.targetExponent]
    omega
  have hround : UnpackedFloat.round f sign m e =
      roundWithAccuracy f sign (m <<< k) (e - k) .exact := by
    rw [← hk]
    rfl
  obtain ⟨hfirst, hfits⟩ := shiftToTargetExponent_fits hpos hmin .exact
  rw [hround, roundWithAccuracy]
  generalize shiftToTargetExponent f (m <<< k) (e - k) .exact = r at hfirst hfits
  -- The second shift takes back the bit that rounding may have added.
  have hrounded := Nat.lt_of_lt_of_le hfirst (le_roundedMantissa r.1)
  obtain ⟨hsecond, hfits'⟩ := shiftToTargetExponent_fits hrounded (fits_iff.1 hfits).2 .exact
  exact ⟨_, _, hsecond, dif_neg (Nat.ne_of_gt hsecond), hfits'⟩

/-- The value is zero, of either sign. -/
def isZero : UnpackedFloat → Bool
  | .zero _ => true
  | _ => false

/-- The format has the value, except that it may be too large. -/
def Representable (f : Format) : UnpackedFloat → Prop
  | .finite _ m e _ => Fits f m e
  | _ => True

/-- An integer multiple of the smallest number, or of a larger power of two, is rounded to a
value of the format, and to zero only if it is zero. -/
theorem normalize_representable (n : Int) {e : Int} (he : f.minExponent ≤ e) (zero : Sign) :
    Representable f (UnpackedFloat.normalize f n e zero) ∧
      isZero (UnpackedFloat.normalize f n e zero) = decide (n = 0) := by
  rw [UnpackedFloat.normalize]
  rcases Int.lt_trichotomy n 0 with h | rfl | h
  · obtain ⟨m, k, hm, hround, hfits⟩ :=
      exists_round_eq .negative (by omega : 0 < (-n).toNat) he
    rw [Int.compare_eq_lt.2 h, decide_eq_false (Int.ne_of_lt h)]
    simp only [hround]
    exact ⟨hfits, rfl⟩
  · exact ⟨trivial, rfl⟩
  · obtain ⟨m, k, hm, hround, hfits⟩ := exists_round_eq .positive (by omega : 0 < n.toNat) he
    rw [Int.compare_eq_gt.2 h, decide_eq_false (Int.ne_of_gt h)]
    simp only [hround]
    exact ⟨hfits, rfl⟩

/-! ### Packing -/

theorem zero_ne_full (f : Format) : (0#f.exponentBits) ≠ -1#_ := by
  intro h
  have hnat := congrArg BitVec.toNat h
  have hpow : 2 ≤ 2 ^ f.exponentBits := Nat.pow_le_pow_right Nat.two_pos f.he
  rw [BitVec.neg_one_eq_allOnes, BitVec.toNat_allOnes, BitVec.toNat_zero] at hnat
  omega

/-- A bit pattern is zero if its exponent and its mantissa are zero. -/
theorem isZero_unpack_iff (a : Bits f) :
    isZero (unpack f a) = true ↔ unpackExponent a = 0#_ ∧ unpackMantissa a = 0#_ := by
  rw [unpack]
  fun_cases UnpackedFloat.unpack f a with
  | case1 mantissa exponent sign s hfull | case2 mantissa exponent hfull =>
    exact iff_of_false Bool.false_ne_true fun h => zero_ne_full f (h.1.symm.trans hfull)
  | case3 mantissa exponent sign s hfull hzero hmantissa =>
    exact iff_of_true rfl ⟨hzero, hmantissa⟩
  | case4 mantissa exponent e sign s hfull hzero hmantissa =>
    exact iff_of_false Bool.false_ne_true fun h => hmantissa h.2
  | case5 mantissa exponent e sign s hfull hzero =>
    exact iff_of_false Bool.false_ne_true fun h => hzero h.1

theorem isZero_packComponents (sign : Sign) (exponent : BitVec f.exponentBits)
    (mantissa : BitVec f.mantissaBitsWithoutImplicit) :
    isZero (unpack f (packComponents f sign exponent mantissa)) = true ↔
      exponent = 0#_ ∧ mantissa = 0#_ := by
  rw [isZero_unpack_iff, unpackExponent_packComponents, unpackMantissa_packComponents]

theorem ofNat_ne_zero {w n : Nat} (hpos : 0 < n) (hlt : n < 2 ^ w) : BitVec.ofNat w n ≠ 0#w := by
  intro h
  have hnat := congrArg BitVec.toNat h
  rw [BitVec.toNat_ofNat, Nat.mod_eq_of_lt hlt, BitVec.toNat_zero] at hnat
  omega

/-- The smallest exponent is that of a biased exponent of one. -/
theorem minExponent_eq (f : Format) :
    f.minExponent = 1 - f.exponentBias - f.mantissaBitsWithoutImplicit := by
  have hpow : 1 ≤ 2 ^ (f.exponentBits - 1) := Nat.two_pow_pos _
  rw [Format.minExponent, Format.exponentBias, Format.mantissaBits, Int.natCast_sub hpow]
  push_cast
  omega

/-- Packing makes zero of zero only. -/
theorem isZero_pack {v : UnpackedFloat} (h : Representable f v) :
    isZero (unpack f (pack f v)) = isZero v := by
  have hbits : f.mantissaBits = 1 + f.mantissaBitsWithoutImplicit := rfl
  have hfull : ∀ s m, isZero (unpack f (packComponents f s (-1#_) m)) ≠ true := fun s m hzero =>
    zero_ne_full f ((isZero_packComponents _ _ _).1 hzero).1.symm
  rw [Bool.eq_iff_iff, pack]
  fun_cases UnpackedFloat.pack with
  | case1 => exact iff_of_false (hfull _ _) Bool.false_ne_true
  | case2 s => exact iff_of_false (hfull _ _) Bool.false_ne_true
  | case3 s => exact iff_of_true ((isZero_packComponents _ _ _).2 ⟨rfl, rfl⟩) rfl
  | case4 s m e hm => exact iff_of_false (hfull _ _) Bool.false_ne_true
  | case5 s m e hm bits biased hfits hnormal =>
    obtain ⟨-, hmin⟩ := fits_iff.1 h
    rw [minExponent_eq] at hmin
    refine iff_of_false (fun hzero => ?_) Bool.false_ne_true
    exact ofNat_ne_zero (by omega) (by omega) ((isZero_packComponents _ _ _).1 hzero).1
  | case6 s m e hm bits biased hfits hnormal =>
    -- A subnormal mantissa lacks the leading bit, so it is stored as it is.
    have hlog := (fits_iff.1 h).1
    have hlt : m < 2 ^ f.mantissaBitsWithoutImplicit :=
      (Nat.log2_lt (Nat.ne_of_gt hm)).1 (by omega)
    refine iff_of_false (fun hzero => ?_) Bool.false_ne_true
    exact ofNat_ne_zero hm hlt ((isZero_packComponents _ _ _).1 hzero).2

/-- The float nearest to an integer that is not zero is not zero. -/
theorem isZero_ofInt (n : Int) : isZero (unpack double (ofInt double n)) = decide (n = 0) := by
  obtain ⟨hrepresentable, hzero⟩ :=
    normalize_representable (f := double) n (by decide : double.minExponent ≤ 0) .positive
  rw [ofInt, UnpackedFloat.ofInt, isZero_pack hrepresentable, hzero]

/-! ### Unpacking -/

theorem log2_leadingBit {w : Nat} (mantissa : BitVec w) : (1#1 ++ mantissa).toNat.log2 = w := by
  have hnat : (1#1 ++ mantissa).toNat = 2 ^ w + mantissa.toNat := by
    rw [BitVec.toNat_append, ← Nat.shiftLeft_add_eq_or_of_lt mantissa.isLt, Nat.shiftLeft_eq]
    exact congrArg (· + _) (Nat.one_mul _)
  have hlt := mantissa.isLt
  have hpow := Nat.two_pow_succ w
  rw [hnat, Nat.log2_eq_iff (by omega)]
  omega

/-- The value has the only exponent that the format has for it. -/
def Canonical (f : Format) : UnpackedFloat → Prop
  | .finite _ m e _ => f.targetExponent (totalExponent m e) = e
  | _ => True

theorem Canonical.representable {v : UnpackedFloat} (h : Canonical f v) : Representable f v := by
  cases v with
  | finite s m e hm => exact Int.le_of_eq h
  | notANumber | infinity | zero => exact trivial

theorem canonical_unpack (a : Bits f) : Canonical f (unpack f a) := by
  have hbits : f.mantissaBits = 1 + f.mantissaBitsWithoutImplicit := rfl
  have hmin := minExponent_eq f
  rw [unpack]
  fun_cases UnpackedFloat.unpack f a with
  | case1 | case2 | case3 => exact trivial
  | case4 mantissa exponent e sign s hfull hzero hmantissa =>
    -- A subnormal number is shorter than the format allows and has the smallest exponent.
    have hpos : mantissa.toNat ≠ 0 := fun h => hmantissa (BitVec.eq_of_toNat_eq h)
    have hlog := (Nat.log2_lt hpos).2 mantissa.isLt
    have hexponent : exponent.toNat = 0 := by rw [hzero, BitVec.toNat_zero]
    rw [Canonical, Format.targetExponent, totalExponent]
    omega
  | case5 mantissa exponent e sign s hfull hzero =>
    -- A normal number has the full length.
    have hlog := log2_leadingBit mantissa
    have hexponent : exponent.toNat ≠ 0 := fun h => hzero (BitVec.eq_of_toNat_eq h)
    rw [Canonical, Format.targetExponent, totalExponent, hlog]
    omega

/-- A double that is a number is known from its value. -/
theorem unpack_inj {a b : Bits double} (ha : isNaN a = false)
    (h : unpack double a = unpack double b) : a = b := by
  have hpack : ∀ c : Bits double, isNaN c = false → pack double (unpack double c) = c := by
    intro c hc
    have hbits : ¬UnpackedFloat.isNaNBits c = true := by
      rw [UnpackedFloat.isNaNBits, decide_eq_true_iff, ← isNaN_iff, hc]
      exact Bool.false_ne_true
    rw [pack, unpack, UnpackedFloat.pack_unpack, if_neg hbits]
  have hb : isNaN b = false := by rwa [isNaN, ← h]
  rw [← hpack a ha, h, hpack b hb]

/-! ### Differences -/

theorem totalExponent_decreaseExponent {m : Nat} (hm : 0 < m) {e t : Int} (h : t ≤ e) :
    totalExponent (decreaseExponent m e t).1 t = totalExponent m e := by
  have hlog : (m <<< (e - t).toNat).log2 = m.log2 + (e - t).toNat := by
    have hpos : m * 2 ^ (e - t).toNat ≠ 0 :=
      Nat.ne_of_gt (Nat.mul_pos hm (Nat.two_pow_pos _))
    rw [Nat.shiftLeft_eq, Nat.log2_eq_iff hpos, Nat.pow_add, Nat.add_right_comm, Nat.pow_add]
    exact ⟨Nat.mul_le_mul_right _ (Nat.log2_self_le (Nat.ne_of_gt hm)),
      Nat.mul_lt_mul_of_pos_right Nat.lt_log2_self (Nat.two_pow_pos _)⟩
  rw [totalExponent, totalExponent, decreaseExponent, hlog]
  omega

theorem apply_inj {s t : Sign} {m n : Nat} (hm : 0 < m) (h : s.apply m = t.apply n) :
    s = t ∧ m = n := by
  cases s <;> cases t <;> simp only [Sign.apply] at h
  case negative.negative => exact ⟨rfl, by omega⟩
  case positive.positive => exact ⟨rfl, by omega⟩
  all_goals omega

/-- Two numbers in their only form, brought to the smaller exponent, are the same integer only if
they are the same. -/
theorem apply_decreaseExponent_inj {s t : Sign} {m n : Nat} {e k : Int} (hm : 0 < m) (hn : 0 < n)
    (he : f.targetExponent (totalExponent m e) = e)
    (hk : f.targetExponent (totalExponent n k) = k)
    (h : s.apply (decreaseExponent m e (min e k)).1 = t.apply (decreaseExponent n k (min e k)).1) :
    s = t ∧ m = n ∧ e = k := by
  have hpos : 0 < (decreaseExponent m e (min e k)).1 := by
    rw [decreaseExponent, Nat.shiftLeft_eq]
    exact Nat.mul_pos hm (Nat.two_pow_pos _)
  obtain ⟨hsign, hmantissa⟩ := apply_inj hpos h
  -- The integer has one magnitude, and that determines the exponent of either side.
  have htotal : totalExponent m e = totalExponent n k := by
    rw [← totalExponent_decreaseExponent hm (Int.min_le_left e k), hmantissa,
      totalExponent_decreaseExponent hn (Int.min_le_right e k)]
  obtain rfl : e = k := by rw [← he, ← hk, htotal]
  rw [Int.min_self, decreaseExponent, decreaseExponent, Int.sub_self] at hmantissa
  exact ⟨hsign, hmantissa, rfl⟩

theorem beq_finite {s t : Sign} {m n : Nat} {e k : Int} (hm : 0 < m) (hn : 0 < n) :
    (UnpackedFloat.finite s m e hm).beq (.finite t n k hn) = true ↔ s = t ∧ m = n ∧ e = k := by
  rw [UnpackedFloat.beq_iff_ne_notANumber_and_eq]
  simp

/-- The difference of two finite numbers is rounded once, and is zero only if they are equal. -/
theorem sub_finite {s t : Sign} {m n : Nat} {e k : Int} (hm : 0 < m) (hn : 0 < n)
    (he : f.targetExponent (totalExponent m e) = e)
    (hk : f.targetExponent (totalExponent n k) = k) :
    let difference := UnpackedFloat.sub f (.finite s m e hm) (.finite t n k hn)
    Representable f difference ∧
      (isZero difference || difference.isNaN) =
        (UnpackedFloat.finite s m e hm).beq (.finite t n k hn) := by
  have hmin : f.minExponent ≤ min e k :=
    Int.le_min.2 ⟨(fits_iff.1 (Int.le_of_eq he)).2, (fits_iff.1 (Int.le_of_eq hk)).2⟩
  obtain ⟨hrepresentable, hzero⟩ := normalize_representable
    (s.apply (decreaseExponent m e (min e k)).1 - t.apply (decreaseExponent n k (min e k)).1)
    hmin .positive
  refine ⟨hrepresentable, ?_⟩
  rw [UnpackedFloat.sub, isNaN_normalize, Bool.or_false, hzero, Bool.eq_iff_iff, decide_eq_true_iff,
    beq_finite hm hn, Int.sub_eq_zero]
  constructor
  · exact apply_decreaseExponent_inj hm hn he hk
  · rintro ⟨rfl, rfl, rfl⟩
    rfl

/-- The difference of two numbers is zero only if they are equal. Infinities of one sign, which are
equal too, have no difference. -/
theorem sub_canonical {u v : UnpackedFloat} (hu : Canonical f u) (hv : Canonical f v)
    (hnu : u.isNaN = false) (hnv : v.isNaN = false) :
    Representable f (UnpackedFloat.sub f u v) ∧
      (isZero (UnpackedFloat.sub f u v) || (UnpackedFloat.sub f u v).isNaN) = u.beq v := by
  cases u with
  | notANumber => cases hnu
  | infinity s =>
    cases v with
    | notANumber => cases hnv
    | infinity t => cases s <;> cases t <;> exact ⟨trivial, rfl⟩
    | zero | finite => cases s <;> exact ⟨trivial, rfl⟩
  | zero s =>
    cases v with
    | notANumber => cases hnv
    | infinity t => cases t <;> exact ⟨trivial, rfl⟩
    | zero t => cases s <;> cases t <;> exact ⟨trivial, rfl⟩
    | finite t => cases t <;> exact ⟨hv.representable, rfl⟩
  | finite s m e hm =>
    cases v with
    | notANumber => cases hnv
    | infinity t => cases t <;> cases s <;> exact ⟨trivial, rfl⟩
    | zero => cases s <;> exact ⟨hu.representable, rfl⟩
    | finite t n k hn => exact sub_finite hm hn hu hv

/-- Infinity tells zero from the other numbers: their product is not a number. -/
theorem isNaN_mul_infinity (v : UnpackedFloat) (sign : Sign) :
    (UnpackedFloat.mul f v (.infinity sign)).isNaN = (isZero v || v.isNaN) := by
  cases v <;> rfl

/-- The positive infinity of the 64-bit format. -/
def infinity : Bits double :=
  0x7FF0000000000000#64

theorem unpack_infinity : unpack double infinity = .infinity .positive := by
  rfl

/-- A way to compare two numbers exactly by arithmetic. -/
theorem isNaN_mul_sub_infinity {a b : Bits double} (ha : isNaN a = false) (hb : isNaN b = false) :
    isNaN (mul (sub a b) infinity) = eq a b := by
  obtain ⟨hrepresentable, hzero⟩ := sub_canonical (canonical_unpack a) (canonical_unpack b) ha hb
  rw [eq, ← hzero, mul, isNaN_pack, unpack_infinity, isNaN_mul_infinity, sub,
    isZero_pack hrepresentable]
  exact congrArg _ (isNaN_pack (UnpackedFloat.sub double (unpack double a) (unpack double b)))

/-! ### Equality -/

/-- Equal doubles of which one is not zero are the same bit pattern. -/
theorem bits_eq_of_eq {a b : Bits double}
    (hz : isZero (unpack double a) = false ∨ isZero (unpack double b) = false)
    (h : eq a b = true) : a = b := by
  obtain ⟨hne, -, hsame⟩ := (UnpackedFloat.beq_iff_ne_notANumber_and_eq _ _).1 h
  rcases hsame with heq | ⟨ha, hb⟩ | ⟨ha, hb⟩
  · exact unpack_inj (Bool.eq_false_iff.2 fun hnan => hne (unpack_of_isNaN hnan)) heq
  · rw [ha, hb] at hz
    cases hz <;> contradiction
  · rw [ha, hb] at hz
    cases hz <;> contradiction

theorem eq_self {a : Bits f} (h : isNaN a = false) : eq a a = true := by
  have hne : unpack f a ≠ .notANumber := by
    intro hnan
    rw [isNaN, hnan] at h
    cases h
  exact (UnpackedFloat.beq_iff_ne_notANumber_and_eq _ _).2 ⟨hne, hne, .inl rfl⟩

end RowFilter.BinaryFloat
