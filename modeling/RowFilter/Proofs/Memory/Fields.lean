import RowFilter.Proofs.Comparison.IntLeaf
import RowFilter.Proofs.Memory.Stored

/-!
# Columns with values of variable length

The layout of such a column, and what a read of a length makes of it. Behind one another stand the
records of the values, each a header with the length and then the bytes, and the auxiliary data is
the running sum of the record sizes. A null has the header minus one and no bytes, so two offsets
alone do not tell it from an empty value.

## Main definitions

- `FieldKind.record`, `FieldKind.records` — the data of a value and of a column.
- `FieldKind.offsets` — the offsets of the records.
- `Field.length` — the length of a value, minus one for null.
- `StoredFields` — the values of a column that is within the range of its lengths and offsets.

The main statement is `StoredFields.toInt_fieldLength`.
-/

namespace RowFilter

open LittleEndian (bytes packed)

/-- A value of a variable-length column: null, or its bytes. -/
abbrev Field : Type := Option (List Byte)

/-- The length of a value, minus one for null. -/
def Field.length : Field → Int
  | none => -1
  | some data => data.length

/-- The bytes of a value; a null has none. -/
def Field.data (field : Field) : List Byte :=
  field.getD []

namespace FieldKind

variable (kind : FieldKind)

/-- The type a column of the kind is read at. -/
def headerType : FieldKind → DataType
  | string => .stringHeader
  | binary => .binaryHeader

/-- A value as it is stored: its length, signed, and its bytes. -/
def record (field : Field) : List Byte :=
  bytes kind.headerSize (BitVec.ofInt _ field.length) ++ field.data

/-- The data of a column. -/
def records (fields : List Field) : List Byte :=
  fields.flatMap kind.record

/-- The offset of every record, the first of which is at `start`, and of the end. -/
def offsets : (start : Nat) → List Field → List (BitVec 64)
  | start, [] => [BitVec.ofNat 64 start]
  | start, field :: fields =>
    BitVec.ofNat 64 start :: offsets (start + (kind.record field).length) fields

theorem length_record (field : Field) :
    (kind.record field).length = kind.headerSize + field.data.length := by
  rw [record, List.length_append, LittleEndian.length_bytes]

theorem records_cons (field : Field) (fields : List Field) :
    kind.records (field :: fields) = kind.record field ++ kind.records fields :=
  List.flatMap_cons

theorem records_append (first rest : List Field) :
    kind.records (first ++ rest) = kind.records first ++ kind.records rest :=
  List.flatMap_append

theorem length_offsets (start : Nat) (fields : List Field) :
    (kind.offsets start fields).length = fields.length + 1 := by
  induction fields generalizing start with
  | nil => rfl
  | cons field fields ih => rw [offsets, List.length_cons, ih, List.length_cons]

/-- The offset of a record is the size of all records before it. -/
theorem getElem_offsets (start : Nat) (fields : List Field) {r : Nat}
    (hr : r < (kind.offsets start fields).length) :
    (kind.offsets start fields)[r] =
      BitVec.ofNat 64 (start + (kind.records (fields.take r)).length) := by
  induction fields generalizing start r with
  | nil =>
    obtain rfl : r = 0 := Nat.lt_one_iff.1 hr
    rfl
  | cons field fields ih =>
    cases r with
    | zero => rfl
    | succ r =>
      have hr' : r < (kind.offsets (start + (kind.record field).length) fields).length :=
        Nat.lt_of_succ_lt_succ hr
      have hnext := ih _ hr'
      rw [List.take_succ_cons, records_cons, List.length_append, ← Nat.add_assoc]
      exact hnext

/-- The header in front of a value without bytes is its length. -/
theorem header_of_holds {data : Buffer} {offset : BitVec 64} {field : Field}
    (h : data.Holds offset (kind.record field)) (hempty : field.data = []) :
    kind.header data offset = BitVec.ofInt 64 field.length := by
  have hread := (Buffer.holds_append_iff.1 h).1.read
  -- A value without bytes has one of two lengths.
  have hlength : field.length = -1 ∨ field.length = 0 := by
    cases field with
    | none => exact .inl rfl
    | some data =>
      obtain rfl : data = [] := hempty
      exact .inr rfl
  cases kind with
  | string =>
    change (data.read 4 offset).signExtend 64 = _
    rw [show data.read 4 offset = _ from hread]
    rcases hlength with h | h <;> rw [h] <;> rfl
  | binary => exact hread

end FieldKind

theorem Field.length_eq_of_data_ne_nil {field : Field} (h : field.data ≠ []) :
    field.length = field.data.length := by
  cases field with
  | none => exact absurd rfl h
  | some data => rfl

namespace Memory

variable {memory : Memory} {kind : FieldKind} {column r : Nat} {fields : List Field}

/-- Two neighbouring offsets are the ends of a record. -/
theorem read_offsets (haux : (memory.aux column).Holds 0 (packed 8 (kind.offsets 0 fields)))
    (hr : r < fields.length) :
    (memory.aux column).read 8 (BitVec.ofNat 64 r * 8) =
        BitVec.ofNat 64 (kind.records (fields.take r)).length ∧
      (memory.aux column).read 8 (BitVec.ofNat 64 r * 8 + 8) =
        BitVec.ofNat 64 ((kind.records (fields.take r)).length +
          (kind.headerSize + fields[r].data.length)) := by
  have hlength := kind.length_offsets 0 fields
  have hstart := haux.read_packed (r := r) (by omega)
  have hnext := haux.read_packed (r := r + 1) (by omega)
  rw [kind.getElem_offsets] at hstart hnext
  rw [List.take_succ_eq_append_getElem hr, kind.records_append, List.length_append] at hnext
  have hrecord : (kind.records [fields[r]]).length = kind.headerSize + fields[r].data.length := by
    rw [kind.records_cons, List.length_append, kind.length_record]
    rfl
  rw [hrecord] at hnext
  simp only [BitVec.ofNat_eq_ofNat, BitVec.zero_add, Nat.zero_add, Nat.succ_mul, BitVec.ofNat_mul,
    BitVec.ofNat_add] at hstart hnext ⊢
  exact ⟨hstart, hnext⟩

/-- A record starts at its offset. -/
theorem holds_record (hdata : (memory.column column).Holds 0 (kind.records fields))
    (hr : r < fields.length) :
    (memory.column column).Holds (BitVec.ofNat 64 (kind.records (fields.take r)).length)
      (kind.record fields[r]) := by
  rw [← List.take_append_drop r fields, List.drop_eq_getElem_cons hr, kind.records_append,
    kind.records_cons, Buffer.holds_append_iff, Buffer.holds_append_iff] at hdata
  have hrecord := hdata.2.1
  simp only [BitVec.ofNat_eq_ofNat, BitVec.zero_add] at hrecord
  exact hrecord

/-- The length of a stored value. The distance of its offsets gives it, if it has bytes, and the
header if it has none. -/
theorem fieldLength_of_holds (hdata : (memory.column column).Holds 0 (kind.records fields))
    (haux : (memory.aux column).Holds 0 (packed 8 (kind.offsets 0 fields)))
    (hr : r < fields.length) (hsize : fields[r].data.length < 0x10000000000000000) :
    memory.fieldLength kind column (BitVec.ofNat 64 r) =
      kind.lengthWord (BitVec.ofInt 64 fields[r].length) := by
  obtain ⟨hstart, hnext⟩ := read_offsets haux hr
  have hdistance : ∀ start header size : Nat,
      BitVec.ofNat 64 (start + (header + size)) - BitVec.ofNat 64 start - BitVec.ofNat 64 header =
        BitVec.ofNat 64 size := by
    intro start header size
    bv_omega
  rw [fieldLength]
  simp only [hstart, hnext, hdistance]
  refine congrArg kind.lengthWord ?_
  by_cases hempty : fields[r].data = []
  · have hzero : BitVec.ofNat 64 fields[r].data.length = 0 := by rw [hempty]; rfl
    rw [if_pos hzero]
    exact kind.header_of_holds (holds_record hdata hr) hempty
  · have hpos : 0 < fields[r].data.length := List.length_pos_iff.2 hempty
    have hne : BitVec.ofNat 64 fields[r].data.length ≠ 0 := by bv_omega
    rw [if_neg hne, Field.length_eq_of_data_ne_nil hempty, BitVec.ofInt_natCast]

end Memory

/-- The values of a column. Strings are within the range of a 32-bit length, and the whole data
is within the range of a 64-bit offset. -/
structure StoredFields (kind : FieldKind) where
  fields : List Field
  length_le : kind = .string → ∀ field ∈ fields, field.data.length ≤ 0x7FFFFFFF
  size_le : (kind.records fields).length ≤ 0x7FFFFFFFFFFFFFFF

namespace StoredFields

variable {kind : FieldKind} (column : StoredFields kind)

/-- The column is laid out in a memory: its records from the start of the data, and their offsets
from the start of the auxiliary data. -/
structure In (memory : Memory) (index : Nat) : Prop where
  data : (memory.column index).Holds 0 (kind.records column.fields)
  offsets : (memory.aux index).Holds 0 (packed 8 (kind.offsets 0 column.fields))

/-- No value has more bytes than the whole column. -/
theorem length_data_le {r : Nat} (hr : r < column.fields.length) :
    column.fields[r].data.length ≤ (kind.records column.fields).length := by
  conv => rhs; rw [← List.take_append_drop r column.fields, List.drop_eq_getElem_cons hr]
  rw [kind.records_append, kind.records_cons, List.length_append, List.length_append,
    kind.length_record]
  omega

/-- A length is minus one, or within the range of its type. -/
theorem length_mem_range {r : Nat} (hr : r < column.fields.length) :
    -1 ≤ column.fields[r].length ∧ column.fields[r].length ≤ 0x7FFFFFFFFFFFFFFF ∧
      (kind = .string → column.fields[r].length ≤ 0x7FFFFFFF) := by
  have hsize := column.length_data_le hr
  have htotal := column.size_le
  have hstring := column.length_le
  cases hfield : column.fields[r] with
  | none => exact ⟨by decide, by decide, fun _ => by decide⟩
  | some data =>
    have hdata : column.fields[r].data.length = data.length := by rw [hfield]; rfl
    change (-1 : Int) ≤ (data.length : Int) ∧ (data.length : Int) ≤ _ ∧ (_ → (data.length : Int) ≤ _)
    refine ⟨by omega, by omega, fun hkind => ?_⟩
    have hnarrow := hstring hkind _ (List.getElem_mem hr)
    omega

/-- The read of a length yields the length of the value. -/
theorem toInt_fieldLength {memory : Memory} {index : Nat} (h : column.In memory index) {r : Nat}
    (hr : r < column.fields.length) :
    (memory.fieldLength kind index (BitVec.ofNat 64 r)).toInt = column.fields[r].length := by
  obtain ⟨hlow, hhigh, hstring⟩ := column.length_mem_range hr
  have hsize := column.length_data_le hr
  have htotal := column.size_le
  rw [Memory.fieldLength_of_holds h.data h.offsets hr (by omega)]
  have hlength : (BitVec.ofInt 64 column.fields[r].length).toInt = column.fields[r].length := by
    rw [BitVec.toInt_ofInt]
    exact Int.bmod_eq_of_le (by omega) (by omega)
  cases kind with
  | string =>
    have hnarrow := hstring rfl
    refine (toInt_setWidth_of_withinInt32 ((withinInt32_iff _).2 ?_)).trans hlength
    rw [hlength]
    omega
  | binary => exact hlength

end StoredFields

end RowFilter
