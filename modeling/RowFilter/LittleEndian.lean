/-!
# Little-endian words

The byte order of wire records, pooled constants and stored data: a word of `n` bytes is
written least significant byte first.

## Main definitions

- `LittleEndian.bytes n w` — the bytes of a word.
- `LittleEndian.word n bs` — the word that the first `n` bytes of a list spell.

The main statement is `word_bytes_append`: a word that was written reads back, whatever
follows it.
-/

namespace RowFilter

abbrev Byte : Type := BitVec 8

namespace LittleEndian

/-- The bytes of a word, least significant first. -/
def bytes : (n : Nat) → BitVec (8 * n) → List Byte
  | 0, _ => []
  | n + 1, w => w.setWidth 8 :: bytes n ((w >>> 8).setWidth (8 * n))

/-- The word that the first `n` bytes spell; bytes missing at the end count as zero. -/
def word : (n : Nat) → List Byte → BitVec (8 * n)
  | 0, _ => 0#0
  | n + 1, bs => word n bs.tail ++ bs.headD 0#8

@[simp] theorem length_bytes (n : Nat) (w : BitVec (8 * n)) : (bytes n w).length = n := by
  induction n with
  | zero => rfl
  | succ n ih => simp [bytes, ih]

/-- The numeric value of a word is that of its first byte plus 256 times that of the rest. -/
theorem toNat_word_cons (n : Nat) (b : Byte) (bs : List Byte) :
    (word (n + 1) (b :: bs)).toNat = b.toNat + 256 * (word n bs).toNat := by
  have hb := b.isLt
  have h : (word (n + 1) (b :: bs)).toNat = (word n bs ++ b).toNat := rfl
  rw [h, BitVec.toNat_append, ← Nat.shiftLeft_add_eq_or_of_lt hb, Nat.shiftLeft_eq]
  omega

/-- A word that was written reads back, whatever bytes follow it. -/
theorem word_bytes_append (n : Nat) (w : BitVec (8 * n)) (rest : List Byte) :
    word n (bytes n w ++ rest) = w := by
  induction n with
  | zero => exact Subsingleton.elim (α := BitVec 0) _ _
  | succ n ih =>
    apply BitVec.eq_of_toNat_eq
    rw [bytes, List.cons_append, toNat_word_cons, ih]
    have hw : w.toNat < 2 ^ (8 * n) * 256 := by
      have hpow : 2 ^ (8 * (n + 1)) = 2 ^ (8 * n) * 256 := by rw [Nat.mul_succ, Nat.pow_add]
      exact hpow ▸ w.isLt
    have hq : w.toNat / 256 < 2 ^ (8 * n) := Nat.div_lt_of_lt_mul (by omega)
    simp only [BitVec.toNat_setWidth, BitVec.toNat_ushiftRight, Nat.shiftRight_eq_div_pow]
    rw [Nat.mod_eq_of_lt (a := w.toNat / 2 ^ 8) hq]
    omega

end LittleEndian

end RowFilter
