import RowFilter.Instruction.Wire

/-!
# What a record keeps

An instruction that was encoded and decoded again has the operation, the tag word and the payload
image of the original. Its payload variant is chosen anew, from the operation and the tag.

## Main definitions

- `Instruction.Tagged` — an instruction whose type, if it needs one, is known.
- `Instruction.wireForm` — the instruction that decoding gives back.
- `Instruction.recordCode`, `recordOptions`, `recordImage` — the fields of a record.

The main statements are `Instruction.decode_eq`, what a record stands for, and
`Instruction.decodeAll_encodeAll`.
-/

namespace RowFilter

/-- A traversal that succeeds everywhere collects the results. -/
theorem mapM_eq_ok_iff {α β ε : Type} {f : α → Except ε β} {xs : List α} {ys : List β} :
    xs.mapM f = .ok ys ↔ xs.map f = ys.map .ok := by
  induction xs generalizing ys with
  | nil => cases ys <;> simp [pure, Except.pure]
  | cons x xs ih =>
    rw [List.mapM_cons, List.map_cons]
    cases hx : f x with
    | error e => cases ys <;> simp [bind, Except.bind]
    | ok y =>
      cases hxs : xs.mapM f with
      | error e => cases ys <;> simp [bind, Except.bind, ← ih, hxs]
      | ok ys' => cases ys <;> simp [bind, Except.bind, pure, Except.pure, ← ih, hxs]

namespace Payload

@[simp] theorem low_float (bits : BitVec 64) : (float bits).low = bits :=
  setWidth_signExtend_self (by decide) bits

@[simp] theorem low_int_signExtend (value : BitVec 64) : (int (value.signExtend 128)).low = value :=
  low_float value

theorem setWidth_image (p : Payload) : p.image.setWidth 64 = p.low := by
  cases p with
  | int value => rfl
  | float bits =>
    rw [low_float]
    exact BitVec.setWidth_setWidth_of_le bits (by decide)

end Payload

namespace Instruction

/-- If the instruction is a leaf, its tag names a type. -/
def Tagged (i : Instruction) : Prop :=
  ∀ op, i.opcode = .leaf op → ∃ t, DataType.ofTag? i.options.toNat = some t

/-- The instruction that is read from its own record: literals of float types have a float
payload, and everything else has an integer one. -/
def wireForm (i : Instruction) : Instruction :=
  if i.opcode = .leaf .literal ∧ (DataType.ofTag? i.options.toNat).any DataType.isFloat then
    { i with payload := .float (i.payload.image.setWidth 64) }
  else
    { i with payload := .int i.payload.image }

@[simp] theorem opcode_wireForm (i : Instruction) : i.wireForm.opcode = i.opcode := by
  rw [wireForm]
  split <;> rfl

@[simp] theorem options_wireForm (i : Instruction) : i.wireForm.options = i.options := by
  rw [wireForm]
  split <;> rfl

@[simp] theorem low_wireForm (i : Instruction) : i.wireForm.payload.low = i.payload.low := by
  obtain ⟨opcode, options, payload⟩ := i
  rw [wireForm]
  split
  · rw [Payload.low_float, payload.setWidth_image]
  · exact payload.setWidth_image

/-- A literal of a float type gets a float payload. -/
theorem wireForm_of_isFloat {t : DataType} (h : t.isFloat = true) (payload : Payload) :
    (leaf .literal t payload).wireForm = leaf .literal t (.float payload.low) := by
  rw [← payload.setWidth_image]
  cases t
  case f32 | f64 => rfl
  all_goals exact absurd h (by decide)

theorem toInt_code (op : Opcode) : (BitVec.ofInt 32 op.code).toInt = op.code := by
  rcases op with _ | _ | (_ | _ | _) | (_ | _) |
    ((_ | _) | (_ | _) | (_ | _ | _ | _) | (_ | _ | _ | _)) <;> rfl

/-- The number in the operation field of a record. -/
def recordCode (record : List Byte) : Int :=
  BitVec.toInt (LittleEndian.word 4 record)

/-- The tag word of a record. -/
def recordOptions (record : List Byte) : BitVec 32 :=
  LittleEndian.word 4 (record.drop 4)

/-- The payload bytes of a record. -/
def recordImage (record : List Byte) : BitVec 128 :=
  LittleEndian.word 16 (record.drop 8)

/-- Decoding in terms of the three fields. The payload gets its variant as in a wire form. -/
theorem decode_eq (record : List Byte) :
    decode record =
      match Opcode.ofCode? (recordCode record) with
      | none => .error (.unknownOpcode (recordCode record))
      | some op =>
        if op.isLeaf = true ∧ 9 < (recordOptions record).toNat then
          .error (.unknownDataType (recordOptions record).toNat)
        else .ok (wireForm ⟨op, recordOptions record, .int (recordImage record)⟩) := by
  have hcode : BitVec.toInt (LittleEndian.word 4 record) = recordCode record := rfl
  have hoptions : LittleEndian.word 4 (record.drop 4) = recordOptions record := rfl
  have himage : LittleEndian.word 16 (record.drop 8) = recordImage record := rfl
  simp only [decode, hcode, hoptions, himage]
  cases Opcode.ofCode? (recordCode record) with
  | none => rfl
  | some op =>
    cases op with
    | leaf op =>
      have htag := DataType.isSome_ofTag?_iff (recordOptions record).toNat
      cases ht : DataType.ofTag? (recordOptions record).toNat with
      | none =>
        rw [ht] at htag
        exact (if_pos ⟨rfl, Nat.lt_of_not_le fun h => Bool.false_ne_true (htag.2 h)⟩).symm
      | some t =>
        rw [ht] at htag
        have hle : ¬((Opcode.leaf op).isLeaf = true ∧ 9 < (recordOptions record).toNat) :=
          fun h => Nat.not_lt_of_le (htag.1 rfl) h.2
        simp only [if_neg hle]
        simp only [wireForm, ht, Option.any_some, Opcode.leaf.injEq, Payload.image]
        by_cases hfloat : op = .literal ∧ t.isFloat = true
        · rw [if_pos hfloat, if_pos hfloat]
        · rw [if_neg hfloat, if_neg hfloat]
    | invalid | ret | unary | binary => rfl

@[simp] theorem recordCode_encode (i : Instruction) : recordCode i.encode = i.opcode.code := by
  rw [recordCode, encode, List.append_assoc, List.append_assoc, LittleEndian.word_bytes_append,
    toInt_code]

@[simp] theorem recordOptions_encode (i : Instruction) : recordOptions i.encode = i.options := by
  rw [recordOptions, encode, List.append_assoc, List.append_assoc,
    List.drop_left' (LittleEndian.length_bytes 4 _), LittleEndian.word_bytes_append]

@[simp] theorem recordImage_encode (i : Instruction) : recordImage i.encode = i.payload.image := by
  rw [recordImage, encode, List.append_assoc, List.drop_left' (by simp),
    LittleEndian.word_bytes_append]

theorem tagged_iff {i : Instruction} :
    i.Tagged ↔ (i.opcode.isLeaf = true → i.options.toNat ≤ 9) := by
  rw [← DataType.isSome_ofTag?_iff, Option.isSome_iff_exists, Tagged]
  constructor
  · intro h hleaf
    cases hop : i.opcode with
    | leaf op => exact h op hop
    | invalid | ret | unary | binary =>
      rw [hop] at hleaf
      cases hleaf
  · intro h op hop
    exact h (by rw [hop]; rfl)

/-- Decoding the record of an instruction gives its wire form. -/
theorem decode_encode {i : Instruction} (h : i.Tagged) : decode i.encode = .ok i.wireForm := by
  have htag : ¬(i.opcode.isLeaf = true ∧ 9 < i.options.toNat) :=
    fun hlt => Nat.not_le_of_lt hlt.2 (tagged_iff.1 h hlt.1)
  simp only [decode_eq, recordCode_encode, recordOptions_encode, recordImage_encode,
    Opcode.ofCode?_code]
  rw [if_neg htag]
  rfl

/-- A packed stream is cut into the records that it was made of. -/
theorem records_encodeAll (stream : List Instruction) :
    records (encodeAll stream) = stream.map encode := by
  induction stream with
  | nil => rw [records]; rfl
  | cons i rest ih =>
    have hlength : i.encode.length = recordSize := length_encode i
    have hne : encodeAll (i :: rest) ≠ [] := by
      intro h
      have hnil : i.encode = [] := (List.append_eq_nil_iff.1 h).1
      rw [hnil] at hlength
      exact absurd hlength (by decide)
    rw [records, if_neg hne]
    change (i.encode ++ encodeAll rest).take recordSize ::
      records ((i.encode ++ encodeAll rest).drop recordSize) = _
    rw [List.take_left' hlength, List.drop_left' hlength, ih, List.map_cons]

theorem length_encodeAll (stream : List Instruction) :
    (encodeAll stream).length = recordSize * stream.length := by
  induction stream with
  | nil => rfl
  | cons i rest ih =>
    change (i.encode ++ encodeAll rest).length = _
    rw [List.length_append, length_encode, ih, List.length_cons, Nat.mul_succ, Nat.add_comm]

/-- Decoding the records of a stream gives the wire form of every instruction. -/
theorem decodeAll_encodeAll {stream : List Instruction} (h : ∀ i ∈ stream, i.Tagged) :
    decodeAll (encodeAll stream) = .ok (stream.map wireForm) := by
  have hdecode : (stream.map encode).mapM decode = .ok (stream.map wireForm) := by
    rw [mapM_eq_ok_iff, List.map_map, List.map_map]
    exact List.map_congr_left fun i hi => decode_encode (h i hi)
  rw [decodeAll, length_encodeAll, Nat.mul_mod_right, if_pos rfl, records_encodeAll, hdecode]

end Instruction

end RowFilter
