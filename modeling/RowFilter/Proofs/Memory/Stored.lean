import RowFilter.Proofs.Code.Reads
import RowFilter.Proofs.Memory.Bytes

/-!
# Stored bytes

Bytes that stand in a buffer from an offset on, words that stand one behind the other, and what a
read finds of them. Offsets are counted modulo the address space, and so are the reads, so no
list has to be short enough for it.

## Main definitions

- `Buffer.Holds` — the bytes stand in the buffer from an offset on.
- `Buffer.behind` — the memory behind a pointer into a larger buffer.
- `LittleEndian.packed` — words of one width, one behind the other.
- `DataType.loaded` — what a register holds of a stored value.

## Main statements

- `Buffer.Holds.read_packed` — the word at a multiple of the width.
- `Memory.elementWord_of_holds`, `Memory.slotWord_of_holds`, `Memory.headerWord_of_holds` — the reads
  of a column of fixed width, of a variable slot and of a varchar header.
-/

namespace RowFilter

namespace LittleEndian

variable {n : Nat}

/-- Words of `n` bytes, one behind the other. -/
def packed (n : Nat) (words : List (BitVec (8 * n))) : List Byte :=
  words.flatMap (bytes n)

theorem packed_cons (word : BitVec (8 * n)) (words : List (BitVec (8 * n))) :
    packed n (word :: words) = bytes n word ++ packed n words :=
  List.flatMap_cons

end LittleEndian

open LittleEndian (bytes packed)

namespace Buffer

variable {buffer : Buffer} {offset : BitVec 64} {n : Nat}

/-- The bytes stand in the buffer from the offset on. -/
def Holds (buffer : Buffer) (offset : BitVec 64) (bytes : List Byte) : Prop :=
  buffer.slice bytes.length offset = bytes

/-- The memory behind a pointer into a larger one. The pointer may have any alignment. -/
def behind (space : Buffer) (pointer : BitVec 64) : Buffer :=
  fun offset => space (pointer + offset)

theorem slice_behind (space : Buffer) (pointer : BitVec 64) (count : Nat) (offset : BitVec 64) :
    (space.behind pointer).slice count offset = space.slice count (pointer + offset) := by
  induction count generalizing offset with
  | zero => rfl
  | succ count ih => rw [slice, slice, ih, behind, BitVec.add_assoc]

theorem holds_behind_zero {space : Buffer} {pointer : BitVec 64} {bytes : List Byte} :
    (space.behind pointer).Holds 0 bytes ↔ space.Holds pointer bytes := by
  rw [Holds, Holds, slice_behind, show pointer + 0 = pointer from BitVec.add_zero pointer]

theorem length_slice (buffer : Buffer) (count : Nat) (offset : BitVec 64) :
    (buffer.slice count offset).length = count := by
  induction count generalizing offset with
  | zero => rfl
  | succ count ih => rw [slice, List.length_cons, ih]

theorem slice_add (buffer : Buffer) (m n : Nat) (offset : BitVec 64) :
    buffer.slice (m + n) offset =
      buffer.slice m offset ++ buffer.slice n (offset + BitVec.ofNat 64 m) := by
  induction m generalizing offset with
  | zero => simp [slice]
  | succ m ih =>
    have hnext : offset + 1 + BitVec.ofNat 64 m = offset + BitVec.ofNat 64 (m + 1) := by
      rw [BitVec.ofNat_add, BitVec.add_assoc, BitVec.add_comm (1 : BitVec 64)]
      rfl
    rw [Nat.add_right_comm, slice, slice, ih, hnext, List.cons_append]

theorem holds_append_iff {first second : List Byte} :
    buffer.Holds offset (first ++ second) ↔
      buffer.Holds offset first ∧ buffer.Holds (offset + BitVec.ofNat 64 first.length) second := by
  rw [Holds, List.length_append, slice_add]
  constructor
  · intro h
    exact List.append_inj h (length_slice _ _ _)
  · rintro ⟨hfirst, hsecond⟩
    rw [hfirst, hsecond]

/-- A read of the first bytes of a stored word finds its low bits. -/
theorem Holds.read_low {m : Nat} {word : BitVec (8 * m)} (h : buffer.Holds offset (bytes m word))
    (hn : n ≤ m) : buffer.read n offset = word.setWidth (8 * n) := by
  have hslice : buffer.slice n offset = bytes n (word.setWidth (8 * n)) := by
    obtain ⟨k, rfl⟩ := Nat.exists_eq_add_of_le hn
    rw [Holds, LittleEndian.length_bytes, slice_add] at h
    rw [← LittleEndian.take_bytes hn, ← h, List.take_left' (length_slice _ _ _)]
  rw [read, hslice]
  simpa using LittleEndian.word_bytes_append n (word.setWidth (8 * n)) []

theorem Holds.read {word : BitVec (8 * n)} (h : buffer.Holds offset (bytes n word)) :
    buffer.read n offset = word :=
  (h.read_low (Nat.le_refl n)).trans (BitVec.setWidth_eq word)

/-- Of words one behind the other, each stands at its number times the width. -/
theorem Holds.getElem_packed {words : List (BitVec (8 * n))}
    (h : buffer.Holds offset (packed n words)) {r : Nat} (hr : r < words.length) :
    buffer.Holds (offset + BitVec.ofNat 64 (r * n)) (bytes n words[r]) := by
  induction words generalizing offset r with
  | nil => cases hr
  | cons word words ih =>
    rw [LittleEndian.packed_cons, holds_append_iff, LittleEndian.length_bytes] at h
    cases r with
    | zero => simpa using h.1
    | succ r =>
      have hr' : r < words.length := Nat.lt_of_succ_lt_succ hr
      have hnext := ih h.2 hr'
      rwa [BitVec.add_assoc, ← BitVec.ofNat_add, Nat.add_comm, ← Nat.succ_mul] at hnext

theorem Holds.read_packed {words : List (BitVec (8 * n))}
    (h : buffer.Holds offset (packed n words)) {r : Nat} (hr : r < words.length) :
    buffer.read n (offset + BitVec.ofNat 64 (r * n)) = words[r] :=
  (h.getElem_packed hr).read

end Buffer

namespace DataType

/-- What a register holds of a value of the type, once it is loaded: the narrow integers with
their sign extended to 32 bits, every other value bit for bit. -/
def loaded (t : DataType) (value : BitVec (8 * t.readSize)) : Word :=
  match t, value with
  | .i8, value => .i32 (BitVec.signExtend 32 value)
  | .i16, value => .i32 (BitVec.signExtend 32 value)
  | .i32, value => .i32 value
  | .stringHeader, value => .i32 value
  | .i64, value => .i64 value
  | .binaryHeader, value => .i64 value
  | .varcharHeader, value => .i64 value
  | .i128, value => .i128 value
  | .f32, value => .f32 value
  | .f64, value => .f64 value

theorem wordAt_eq_loaded (t : DataType) (buffer : Buffer) (offset : BitVec 64) :
    t.wordAt buffer offset = t.loaded (buffer.read t.readSize offset) := by
  cases t <;> rfl

theorem readSize_of_not_isHeader {t : DataType} (h : t.isHeader = false) : t.readSize = t.size := by
  cases t
  case varcharHeader => cases h
  all_goals rfl

end DataType

namespace Memory

variable {memory : Memory} {column r : Nat}

/-- A row of a column of fixed width is the element of that number. -/
theorem elementWord_of_holds {t : DataType} (ht : t.isHeader = false)
    {values : List (BitVec (8 * t.readSize))}
    (h : (memory.column column).Holds 0 (packed t.readSize values)) (hr : r < values.length) :
    memory.elementWord t column (BitVec.ofNat 64 r) = t.loaded values[r] := by
  have hread := h.read_packed hr
  simp only [BitVec.ofNat_eq_ofNat, BitVec.zero_add, BitVec.ofNat_mul,
    DataType.readSize_of_not_isHeader ht] at hread
  rw [elementWord, DataType.wordAt_eq_loaded, hread]

/-- A variable is read from the start of its slot. -/
theorem slotWord_of_holds {t : DataType} {slot : Nat} {value : BitVec (8 * t.readSize)}
    (h : memory.slots.Holds (BitVec.ofNat 64 (8 * slot)) (bytes t.readSize value)) :
    memory.slotWord t slot = t.loaded value := by
  rw [slotWord, DataType.wordAt_eq_loaded, h.read]

/-- Of an entry of sixteen bytes the low half is read. -/
theorem headerWord_of_holds {entries : List (BitVec 128)}
    (h : (memory.aux column).Holds 0 (packed 16 entries)) (hr : r < entries.length) :
    memory.headerWord column (BitVec.ofNat 64 r) = .i64 (entries[r].setWidth 64) := by
  have hread : (memory.aux column).read 8 _ = _ :=
    (h.getElem_packed hr).read_low (by decide)
  simp only [BitVec.ofNat_eq_ofNat, BitVec.zero_add, BitVec.ofNat_mul] at hread
  exact congrArg Word.i64 hread

end Memory

end RowFilter
