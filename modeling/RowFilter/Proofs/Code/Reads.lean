import RowFilter.Code

/-!
# What code reads

The bytes that an evaluation takes out of memory, and that it depends on nothing else.

Which bytes are read can depend on the data: the length of a variable-length value is the
distance of two offsets unless nothing but a header lies between them, and only then the header
is read.

## Main definitions

- `Span` — consecutive bytes of a region, and `Span.bytes`, what they are on a frame.
- `Code.reads` — the spans a code reads on a row.

The main statement is `Code.eval_congr`: code has one value on two memories that have the same
bytes in the spans it reads.
-/

namespace RowFilter

/-- Consecutive bytes of a region. -/
structure Span where
  region : Region
  offset : BitVec 64
  size : Nat
  deriving DecidableEq, Repr

def Span.bytes (frame : Frame) (span : Span) : List Byte :=
  (span.region.buffer frame).slice span.size span.offset

/-- The number of bytes a value of the type is read from: its element width, except for the varchar
header, of which only one half is looked at. -/
def DataType.readSize : DataType → Nat
  | .varcharHeader => 8
  | t => t.size

/-- The bytes that the length of a variable-length value is computed from: two offsets and, if
nothing but a header fits between them, that header. -/
def Memory.lengthReads (memory : Memory) (kind : FieldKind) (column : Nat) (row : BitVec 64) :
    List Span :=
  let start : BitVec 64 := (memory.aux column).read 8 (row * 8)
  let next : BitVec 64 := (memory.aux column).read 8 (row * 8 + 8)
  [⟨.aux column, row * 8, 8⟩, ⟨.aux column, row * 8 + 8, 8⟩] ++
    if next - start = BitVec.ofNat 64 kind.headerSize then
      [⟨.column column, start, kind.headerSize⟩]
    else []

/-- The length of a value is read from its own column. -/
theorem Memory.region_of_mem_lengthReads {memory : Memory} {kind : FieldKind} {column : Nat}
    {row : BitVec 64} {span : Span} (h : span ∈ memory.lengthReads kind column row) :
    span.region = .column column ∨ span.region = .aux column := by
  rcases List.mem_append.1 h with h | h
  · simp only [List.mem_cons, List.not_mem_nil, or_false] at h
    rcases h with rfl | rfl <;> exact .inr rfl
  · split at h
    · cases List.mem_singleton.1 h
      exact .inl rfl
    · cases h

/-- The spans a code reads on a row. -/
def Code.reads (memory : Memory) (row : BitVec 64) : Code → List Span
  | const _ => []
  | load t address => [⟨address.base, address.offset row, t.readSize⟩]
  | length kind column => memory.lengthReads kind column row
  | neg arg | not arg | widen _ _ arg => reads memory row arg
  | logic _ lhs rhs | equality _ lhs rhs | order _ _ lhs rhs | arith _ _ lhs rhs =>
    reads memory row lhs ++ reads memory row rhs

theorem Buffer.read_congr {data data' : Buffer} {size : Nat} {offset : BitVec 64}
    (h : data.slice size offset = data'.slice size offset) :
    data.read size offset = data'.read size offset :=
  congrArg (LittleEndian.word size) h

/-- A value is known from the bytes it is read from. -/
theorem DataType.wordAt_congr {t : DataType} {data data' : Buffer} {offset : BitVec 64}
    (h : data.slice t.readSize offset = data'.slice t.readSize offset) :
    t.wordAt data offset = t.wordAt data' offset := by
  have hread := Buffer.read_congr h
  cases t
  case i8 | i16 => exact congrArg (fun w => Word.i32 (w.signExtend 32)) hread
  case i32 | stringHeader => exact congrArg Word.i32 hread
  case i64 | binaryHeader | varcharHeader => exact congrArg Word.i64 hread
  case i128 => exact congrArg Word.i128 hread
  case f32 => exact congrArg Word.f32 hread
  case f64 => exact congrArg Word.f64 hread

theorem FieldKind.header_congr {kind : FieldKind} {data data' : Buffer} {offset : BitVec 64}
    (h : data.slice kind.headerSize offset = data'.slice kind.headerSize offset) :
    kind.header data offset = kind.header data' offset := by
  have hread := Buffer.read_congr h
  cases kind with
  | string => exact congrArg (·.signExtend 64) hread
  | binary => exact hread

variable {memory memory' : Memory} {pool : LiteralPool} {row : BitVec 64}

/-- The length of a value is known from two offsets and from the header if nothing else lies between
them. -/
theorem Memory.fieldLength_congr {kind : FieldKind} {column : Nat}
    (h : ∀ span ∈ memory.lengthReads kind column row,
      span.bytes ⟨memory, pool, row⟩ = span.bytes ⟨memory', pool, row⟩) :
    memory.fieldLength kind column row = memory'.fieldLength kind column row := by
  have hstart : (memory.aux column).read 8 (row * 8) = (memory'.aux column).read 8 (row * 8) :=
    Buffer.read_congr (h ⟨.aux column, row * 8, 8⟩ List.mem_cons_self)
  have hnext : (memory.aux column).read 8 (row * 8 + 8) =
      (memory'.aux column).read 8 (row * 8 + 8) :=
    Buffer.read_congr (h ⟨.aux column, row * 8 + 8, 8⟩ (List.mem_cons_of_mem _ List.mem_cons_self))
  simp only [fieldLength, hstart, hnext]
  -- Only where the distance is that of a header, the data of the column comes in.
  split
  next hzero =>
    have hdistance : (memory.aux column).read 8 (row * 8 + 8) - (memory.aux column).read 8 (row * 8) =
        BitVec.ofNat 64 kind.headerSize := by
      have hsum := congrArg (· + BitVec.ofNat 64 kind.headerSize) hzero
      rw [hstart, hnext]
      exact (BitVec.sub_add_cancel _ _).symm.trans (hsum.trans (BitVec.zero_add _))
    have hheader : kind.header (memory.column column) ((memory.aux column).read 8 (row * 8)) =
        kind.header (memory'.column column) ((memory.aux column).read 8 (row * 8)) := by
      refine FieldKind.header_congr
        (h ⟨.column column, (memory.aux column).read 8 (row * 8), kind.headerSize⟩ ?_)
      rw [lengthReads, if_pos hdistance]
      exact List.mem_append_right _ List.mem_cons_self
    rw [← hstart, hheader]
  next => rfl

/-- Code has one value on two memories with the same bytes in the spans it reads. -/
theorem Code.eval_congr {code : Code}
    (h : ∀ span ∈ code.reads memory row,
      span.bytes ⟨memory, pool, row⟩ = span.bytes ⟨memory', pool, row⟩) :
    code.eval ⟨memory, pool, row⟩ = code.eval ⟨memory', pool, row⟩ := by
  induction code with
  | const value => rfl
  | load t address => exact DataType.wordAt_congr (h _ List.mem_cons_self)
  | length kind column => exact Memory.fieldLength_congr h
  | neg arg ih | not arg ih | widen _ _ arg ih => rw [eval, eval, ih h]
  | logic op lhs rhs ihl ihr | equality op lhs rhs ihl ihr | order op _ lhs rhs ihl ihr
  | arith op _ lhs rhs ihl ihr =>
    obtain ⟨hl, hr⟩ := List.forall_mem_append.1 h
    rw [eval, eval, ihl hl, ihr hr]

end RowFilter
