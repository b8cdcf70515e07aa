import RowFilter.Memory

/-!
# Words in byte buffers

A buffer that starts with the bytes of a word yields the word, or its low bits when fewer bytes
are read. The other way round, bytes are known from the word they spell, so a word that was read is
written as the bytes it was read from.
-/

namespace RowFilter

namespace LittleEndian

/-- The first bytes of a longer word spell its low bits. -/
theorem word_bytes_of_le {n m : Nat} (h : n ≤ m) (w : BitVec (8 * m)) :
    word n (bytes m w) = w.setWidth (8 * n) := by
  apply BitVec.eq_of_toNat_eq
  rw [BitVec.toNat_setWidth]
  induction n generalizing m with
  | zero => simp [word, Nat.mod_one]
  | succ n ih =>
    obtain ⟨m, rfl⟩ := Nat.exists_eq_succ_of_ne_zero (show m ≠ 0 by omega)
    have hdvd : 2 ^ (8 * n) ∣ 2 ^ (8 * m) := Nat.pow_dvd_pow 2 (by omega)
    rw [bytes, toNat_word_cons, ih (by omega), BitVec.toNat_setWidth, BitVec.toNat_setWidth,
      BitVec.toNat_ushiftRight, Nat.shiftRight_eq_div_pow, Nat.mod_mod_of_dvd _ hdvd,
      show 8 * (n + 1) = 8 + 8 * n by omega, Nat.pow_add, Nat.mod_mul]

/-- Two words with the same bytes are the same. -/
theorem bytes_inj {n : Nat} {w w' : BitVec (8 * n)} : bytes n w = bytes n w' ↔ w = w' := by
  refine ⟨fun h => ?_, congrArg _⟩
  have hword := congrArg (word n) h
  rwa [word_bytes_of_le (Nat.le_refl n), word_bytes_of_le (Nat.le_refl n), BitVec.setWidth_eq,
    BitVec.setWidth_eq] at hword

/-- The first bytes of a list are the bytes of the word they spell. -/
theorem bytes_word {n : Nat} {bs : List Byte} (h : n ≤ bs.length) :
    bytes n (word n bs) = bs.take n := by
  induction n generalizing bs with
  | zero => rfl
  | succ n ih =>
    cases bs with
    | nil => cases h
    | cons b bs =>
      have hb := b.isLt
      have hlow : (word (n + 1) (b :: bs)).setWidth 8 = b := by
        apply BitVec.eq_of_toNat_eq
        rw [BitVec.toNat_setWidth, toNat_word_cons]
        omega
      have hhigh : ((word (n + 1) (b :: bs)) >>> 8).setWidth (8 * n) = word n bs := by
        apply BitVec.eq_of_toNat_eq
        rw [BitVec.toNat_setWidth, BitVec.toNat_ushiftRight, toNat_word_cons,
          Nat.shiftRight_eq_div_pow,
          show (b.toNat + 256 * (word n bs).toNat) / 2 ^ 8 = (word n bs).toNat by omega]
        exact Nat.mod_eq_of_lt (word n bs).isLt
      rw [bytes, hlow, hhigh, ih (Nat.le_of_succ_le_succ h), List.take_succ_cons]

/-- The first bytes of a longer word are those of its low bits. -/
theorem take_bytes {n m : Nat} (h : n ≤ m) (w : BitVec (8 * m)) :
    (bytes m w).take n = bytes n (w.setWidth (8 * n)) := by
  rw [← word_bytes_of_le h w, bytes_word (by rw [length_bytes]; exact h)]

theorem bytes_zero (n : Nat) : bytes n 0#(8 * n) = List.replicate n 0#8 := by
  induction n with
  | zero => rfl
  | succ n ih =>
    rw [bytes, List.replicate_succ]
    simp [ih]

/-- What is left of a word behind its first byte fits in one byte less, before and after an
extension by zeros. -/
theorem setWidth_ushiftRight (k n : Nat) (w : BitVec (8 * (n + 1))) :
    ((w.setWidth (8 * (k + n + 1))) >>> 8).setWidth (8 * (k + n)) =
      ((w >>> 8).setWidth (8 * n)).setWidth (8 * (k + n)) := by
  have hpow : 2 ^ (8 * (n + 1)) = 2 ^ 8 * 2 ^ (8 * n) := by
    rw [Nat.mul_succ, Nat.add_comm, Nat.pow_add]
  have hw : w.toNat / 2 ^ 8 < 2 ^ (8 * n) := Nat.div_lt_of_lt_mul (hpow ▸ w.isLt)
  have hlt : w.toNat < 2 ^ (8 * (k + n + 1)) :=
    Nat.lt_of_lt_of_le w.isLt (Nat.pow_le_pow_right (by decide) (by omega))
  apply BitVec.eq_of_toNat_eq
  simp only [BitVec.toNat_setWidth, BitVec.toNat_ushiftRight, Nat.shiftRight_eq_div_pow]
  rw [Nat.mod_eq_of_lt hlt, Nat.mod_eq_of_lt hw]

/-- A word that is extended by zeros has zero bytes behind its own. -/
theorem bytes_setWidth (k n : Nat) (w : BitVec (8 * n)) :
    bytes (k + n) (w.setWidth (8 * (k + n))) = bytes n w ++ List.replicate k 0#8 := by
  induction n with
  | zero =>
    have hw : w = 0#0 := Subsingleton.elim (α := BitVec 0) _ _
    rw [hw]
    simpa [bytes] using bytes_zero k
  | succ n ih =>
    have hlow : (w.setWidth (8 * (k + n + 1))).setWidth 8 = w.setWidth 8 := by
      apply BitVec.setWidth_setWidth_of_le
      omega
    change bytes (k + n + 1) (w.setWidth (8 * (k + n + 1))) = _
    rw [bytes, hlow, setWidth_ushiftRight, ih, bytes, List.cons_append]

end LittleEndian

namespace Buffer

/-- Reading a buffer that starts with given bytes is reading those bytes from the offset on. -/
theorem word_slice_ofBytes (bs : List Byte) (count : Nat) (offset : BitVec 64)
    (h : offset.toNat + count < UInt64.size) :
    LittleEndian.word count ((ofBytes bs.toArray).slice count offset) =
      LittleEndian.word count (bs.drop offset.toNat) := by
  have hsize : UInt64.size = 2 ^ 64 := rfl
  induction count generalizing offset with
  | zero => rfl
  | succ count ih =>
    have hnext : (offset + 1).toNat = offset.toNat + 1 := by
      rw [BitVec.toNat_add, show (1 : BitVec 64).toNat = 1 from rfl]
      exact Nat.mod_eq_of_lt (by omega)
    have hhead : (ofBytes bs.toArray) offset = (bs.drop offset.toNat).headD 0#8 := by
      simp [ofBytes, List.headD_eq_head?_getD]
    simp only [slice, LittleEndian.word, List.tail_cons, List.headD_cons, List.tail_drop]
    rw [ih (offset + 1) (by omega), hnext, hhead]

/-- The first bytes of a stored word spell its low bits. -/
theorem read_ofBytes_bytes {n m : Nat} (h : n ≤ m) (hm : m < UInt64.size) (w : BitVec (8 * m)) :
    (ofBytes (LittleEndian.bytes m w).toArray).read n 0 = w.setWidth (8 * n) := by
  rw [read, word_slice_ofBytes _ _ _ (by simp; omega)]
  simpa using LittleEndian.word_bytes_of_le h w

end Buffer

end RowFilter
