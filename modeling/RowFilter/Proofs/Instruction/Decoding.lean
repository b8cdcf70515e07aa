import RowFilter.Proofs.Instruction.RoundTrip
import RowFilter.Proofs.Memory.Bytes

/-!
# Buffers of records

Which buffers decode, what each record stands for, and what is left of a buffer when the decoded
stream is written again.

A buffer is a whole number of records, and each record is read on its own. What a record says in the
bytes that reading does not look at is lost: writing the stream again puts zeros there.

## Main definitions

- `Instruction.recordAt` — a record of a buffer, by its position.
- `Instruction.Readable`, `Instruction.refusal` — the records that can be read, and the cause for
  which any other is refused.
- `Instruction.rewritten` — a record as it is written again.

## Main statements

- `Instruction.decode_of_not_readable`, `Instruction.exists_decode_of_readable` — one record.
- `Instruction.encode_of_decode` — one record, written again.
- `Instruction.decodeAll_normalizes` — a buffer.
-/

namespace RowFilter

theorem Opcode.code_of_ofCode? {n : Int} {op : Opcode} (h : ofCode? n = some op) : op.code = n := by
  unfold ofCode? at h
  split at h <;> cases h <;> rfl

theorem Opcode.code_range (op : Opcode) : -1 ≤ op.code ∧ op.code ≤ 17 := by
  rcases op with _ | _ | (_ | _ | _) | (_ | _) |
    ((_ | _) | (_ | _) | (_ | _ | _ | _) | (_ | _ | _ | _)) <;> decide

/-- The numbers from minus one to seventeen stand for operations, and no others do. -/
theorem Opcode.isSome_ofCode?_iff {n : Int} : (ofCode? n).isSome = true ↔ -1 ≤ n ∧ n ≤ 17 := by
  constructor
  · intro h
    obtain ⟨op, hop⟩ := Option.isSome_iff_exists.1 h
    exact code_of_ofCode? hop ▸ op.code_range
  · rintro ⟨hlow, hhigh⟩
    have hall : ∀ k : Fin 19, (ofCode? (k - 1)).isSome = true := by decide
    have hk := hall ⟨(n + 1).toNat, by omega⟩
    rwa [show ((⟨(n + 1).toNat, by omega⟩ : Fin 19) : Int) - 1 = n by simp; omega] at hk

theorem Opcode.isLeaf_iff {op : Opcode} : op.isLeaf = true ↔ 1 ≤ op.code ∧ op.code ≤ 3 := by
  rcases op with _ | _ | (_ | _ | _) | (_ | _) |
    ((_ | _) | (_ | _) | (_ | _ | _ | _) | (_ | _ | _ | _)) <;> decide

theorem Opcode.eq_literal_iff {op : Opcode} : op = .leaf .literal ↔ op.code = 3 := by
  rcases op with _ | _ | (_ | _ | _) | (_ | _) |
    ((_ | _) | (_ | _) | (_ | _ | _ | _) | (_ | _ | _ | _)) <;> decide

theorem exists_mapM_eq_ok {α β ε : Type} {f : α → Except ε β} {xs : List α}
    (h : ∀ x ∈ xs, ∃ y, f x = .ok y) : ∃ ys, xs.mapM f = .ok ys := by
  induction xs with
  | nil => exact ⟨[], rfl⟩
  | cons x xs ih =>
    obtain ⟨⟨y, hx⟩, hrest⟩ := List.forall_mem_cons.1 h
    obtain ⟨ys, hxs⟩ := ih hrest
    refine ⟨y :: ys, ?_⟩
    rw [List.mapM_cons, hx, hxs]
    rfl

/-- A traversal fails as its first failing step does. -/
theorem mapM_eq_error {α β ε : Type} {f : α → Except ε β} {before after : List α} {a : α} {e : ε}
    (hbefore : ∀ x ∈ before, ∃ y, f x = .ok y) (ha : f a = .error e) :
    (before ++ a :: after).mapM f = .error e := by
  induction before with
  | nil => simp [List.mapM_cons, ha, bind, Except.bind]
  | cons x before ih =>
    obtain ⟨⟨y, hx⟩, hbefore⟩ := List.forall_mem_cons.1 hbefore
    rw [List.cons_append, List.mapM_cons, hx, ih hbefore]
    rfl

namespace Instruction

variable {record bytes : List Byte} {stream : List Instruction} {i : Instruction}

/-- The record at a position of a buffer. -/
def recordAt (bytes : List Byte) (k : Nat) : List Byte :=
  (bytes.drop (recordSize * k)).take recordSize

/-- A record of a known operation, and of a known type if the operation is a leaf. -/
structure Readable (record : List Byte) : Prop where
  known : -1 ≤ recordCode record ∧ recordCode record ≤ 17
  typed : 1 ≤ recordCode record ∧ recordCode record ≤ 3 → (recordOptions record).toNat ≤ 9

/-- The cause for which a record that is not readable is refused. An unknown operation comes
before an unknown type. -/
def refusal (record : List Byte) : CompileError :=
  if -1 ≤ recordCode record ∧ recordCode record ≤ 17 then
    .unknownDataType (recordOptions record).toNat
  else
    .unknownOpcode (recordCode record)

/-- The record of a literal with the tag of a float type. -/
def IsFloatRecord (record : List Byte) : Prop :=
  recordCode record = 3 ∧ ((recordOptions record).toNat = DataType.f32.tag ∨
    (recordOptions record).toNat = DataType.f64.tag)

instance (record : List Byte) : Decidable (IsFloatRecord record) :=
  inferInstanceAs (Decidable (_ ∧ (_ ∨ _)))

/-- A record as it is written again: the reserved bytes are zero, and in a literal of a float
type so is the high half of the payload. -/
def rewritten (record : List Byte) : List Byte :=
  record.take 16
    ++ (if IsFloatRecord record then List.replicate 8 0#8 else (record.drop 16).take 8)
    ++ List.replicate 8 0#8

theorem decode_of_not_readable (h : ¬Readable record) :
    decode record = .error (refusal record) := by
  rw [decode_eq, refusal]
  cases hop : Opcode.ofCode? (recordCode record) with
  | none =>
    have hknown : ¬(-1 ≤ recordCode record ∧ recordCode record ≤ 17) := by
      rw [← Opcode.isSome_ofCode?_iff, hop]
      exact Bool.false_ne_true
    rw [if_neg hknown]
  | some op =>
    have hcode := Opcode.code_of_ofCode? hop
    have hknown : -1 ≤ recordCode record ∧ recordCode record ≤ 17 := hcode ▸ op.code_range
    have hleaf : op.isLeaf = true ∧ 9 < (recordOptions record).toNat := by
      refine Decidable.byContradiction fun hnot => h ⟨hknown, fun hrange => ?_⟩
      exact Nat.le_of_not_lt fun hlt => hnot ⟨Opcode.isLeaf_iff.2 (hcode.symm ▸ hrange), hlt⟩
    rw [if_pos hknown]
    exact if_pos hleaf

/-- A readable record yields the canonical instruction of its fields. -/
theorem exists_decode_of_readable (h : Readable record) :
    ∃ i : Instruction, i.opcode.code = recordCode record ∧ i.options = recordOptions record ∧
      i.payload = .int (recordImage record) ∧ decode record = .ok i.wireForm ∧
      i.wireForm.Canonical := by
  obtain ⟨op, hop⟩ := Option.isSome_iff_exists.1 (Opcode.isSome_ofCode?_iff.2 h.known)
  have hcode := Opcode.code_of_ofCode? hop
  have htag : op.isLeaf = true → (recordOptions record).toNat ≤ 9 :=
    fun hleaf => h.typed (hcode ▸ Opcode.isLeaf_iff.1 hleaf)
  refine ⟨⟨op, recordOptions record, .int (recordImage record)⟩, hcode, rfl, rfl, ?_,
    canonical_wireForm htag⟩
  rw [decode_eq, hop]
  exact if_neg fun hlt => Nat.not_le_of_lt hlt.2 (htag hlt.1)

theorem readable_of_decode (h : decode record = .ok i) : Readable record := by
  refine Classical.byContradiction fun hnot => ?_
  rw [decode_of_not_readable hnot] at h
  cases h

theorem canonical_of_decode (h : decode record = .ok i) : i.Canonical := by
  obtain ⟨j, -, -, -, hdecode, hcanonical⟩ := exists_decode_of_readable (readable_of_decode h)
  obtain rfl : j.wireForm = i := Except.ok.inj (hdecode.symm.trans h)
  exact hcanonical

/-- A field that was read from a record is written as it stood there. -/
theorem bytes_recordCode (h : record.length = recordSize) :
    LittleEndian.bytes 4 (BitVec.ofInt 32 (recordCode record)) = record.take 4 := by
  have hfour : 4 ≤ record.length := h ▸ by decide
  rw [recordCode, BitVec.ofInt_toInt, LittleEndian.bytes_word hfour]

theorem bytes_recordOptions (h : record.length = recordSize) :
    LittleEndian.bytes 4 (recordOptions record) = (record.drop 4).take 4 := by
  have hfour : 4 ≤ (record.drop 4).length := by
    rw [List.length_drop, h]
    decide
  rw [recordOptions, LittleEndian.bytes_word hfour]

theorem bytes_recordImage (h : record.length = recordSize) :
    LittleEndian.bytes 16 (recordImage record) = (record.drop 8).take 16 := by
  have hsixteen : 16 ≤ (record.drop 8).length := by
    rw [List.length_drop, h]
    decide
  rw [recordImage, LittleEndian.bytes_word hsixteen]

/-- A float payload holds the low half of the image only, and the high half is written as zeros. -/
theorem bytes_low_recordImage (h : record.length = recordSize) :
    LittleEndian.bytes 16 (((recordImage record).setWidth 64).setWidth 128) =
      (record.drop 8).take 8 ++ List.replicate 8 0#8 := by
  have hlow := LittleEndian.take_bytes (n := 8) (m := 16) (by decide) (recordImage record)
  rw [bytes_recordImage h, List.take_take] at hlow
  refine (LittleEndian.bytes_setWidth 8 8 ((recordImage record).setWidth 64)).trans ?_
  exact congrArg (· ++ _) hlow.symm

/-- An instruction that was read from a record is written as the record was, up to the bytes that
reading does not look at. -/
theorem encode_of_decode (hlength : record.length = recordSize) (h : decode record = .ok i) :
    i.encode = rewritten record := by
  obtain ⟨j, hcode, hoptions, hpayload, hdecode, -⟩ :=
    exists_decode_of_readable (readable_of_decode h)
  obtain rfl : j.wireForm = i := Except.ok.inj (hdecode.symm.trans h)
  have hfloat : j.IsFloatLiteral ↔ IsFloatRecord record := by
    rw [IsFloatLiteral, IsFloatRecord, Opcode.eq_literal_iff, hcode, hoptions]
  have hhead : record.take 4 ++ (record.drop 4).take 4 ++ (record.drop 8).take 8 =
      record.take 16 := by
    rw [← List.take_add, ← List.take_add]
  have htail : (record.drop 8).take 16 = (record.drop 8).take 8 ++ (record.drop 16).take 8 := by
    rw [show 16 = 8 + 8 from rfl, List.take_add, List.drop_drop]
  rw [encode, opcode_wireForm, options_wireForm, hcode, hoptions, bytes_recordCode hlength,
    bytes_recordOptions hlength, rewritten, ← hhead]
  by_cases hj : j.IsFloatLiteral
  · have himage : LittleEndian.bytes 16 j.wireForm.payload.image =
        (record.drop 8).take 8 ++ List.replicate 8 0#8 := by
      rw [wireForm_of_isFloatLiteral hj, ← j.payload.setWidth_image, hpayload]
      exact bytes_low_recordImage hlength
    rw [himage, if_pos (hfloat.1 hj)]
    simp only [List.append_assoc]
  · have himage : LittleEndian.bytes 16 j.wireForm.payload.image =
        (record.drop 8).take 8 ++ (record.drop 16).take 8 := by
      rw [wireForm_of_not_isFloatLiteral hj, hpayload]
      exact (bytes_recordImage hlength).trans htail
    rw [himage, if_neg fun hr => hj (hfloat.2 hr)]
    simp only [List.append_assoc]

/-- A buffer of whole records is cut into the records at its positions. -/
theorem records_eq_map (h : bytes.length % recordSize = 0) :
    records bytes = (List.range (bytes.length / recordSize)).map (recordAt bytes) := by
  fun_induction records bytes with
  | case1 => rfl
  | case2 bytes hne ih =>
    have hpos : 0 < bytes.length := List.length_pos_iff.2 hne
    have hcount : bytes.length / recordSize = (bytes.drop recordSize).length / recordSize + 1 := by
      simp only [List.length_drop, recordSize] at h ⊢
      omega
    have hrest : (bytes.drop recordSize).length % recordSize = 0 := by
      simp only [List.length_drop, recordSize] at h ⊢
      omega
    rw [ih hrest, hcount, List.range_succ_eq_map, List.map_cons, List.map_map]
    congr 1
    apply List.map_congr_left
    intro k _
    simp only [Function.comp_apply, recordAt, List.drop_drop, Nat.mul_succ, Nat.add_comm]

theorem decodeAll_eq_mapM (h : bytes.length % recordSize = 0) :
    decodeAll bytes = ((List.range (bytes.length / recordSize)).map (recordAt bytes)).mapM decode := by
  rw [decodeAll, if_pos h, records_eq_map h]

theorem length_recordAt (h : bytes.length % recordSize = 0) {k : Nat}
    (hk : k < bytes.length / recordSize) : (recordAt bytes k).length = recordSize := by
  rw [recordAt, List.length_take, List.length_drop]
  simp only [recordSize] at h hk ⊢
  omega

/-- A buffer decodes to a stream that has, for each of its records, the instruction of that
record. -/
theorem decodeAll_eq_ok_iff : decodeAll bytes = .ok stream ↔
    bytes.length % recordSize = 0 ∧ stream.length = bytes.length / recordSize ∧
      ∀ k (h : k < stream.length), decode (recordAt bytes k) = .ok stream[k] := by
  by_cases hlength : bytes.length % recordSize = 0
  · rw [decodeAll_eq_mapM hlength, mapM_eq_ok_iff, List.map_map, List.ext_getElem_iff]
    simp only [List.length_map, List.length_range, List.getElem_map, List.getElem_range,
      Function.comp_apply, hlength, true_and]
    constructor
    · rintro ⟨hcount, heach⟩
      exact ⟨hcount.symm, fun k hk => heach k (hcount ▸ hk) hk⟩
    · rintro ⟨hcount, heach⟩
      exact ⟨hcount.symm, fun k _ hk => heach k hk⟩
  · rw [decodeAll, if_neg hlength]
    constructor
    · intro h
      cases h
    · intro h
      exact absurd h.1 hlength

/-- The buffers that decode are those with nothing but readable records. -/
theorem exists_decodeAll_iff : (∃ stream, decodeAll bytes = .ok stream) ↔
    bytes.length % recordSize = 0 ∧
      ∀ k < bytes.length / recordSize, Readable (recordAt bytes k) := by
  constructor
  · rintro ⟨stream, h⟩
    obtain ⟨hlength, hcount, heach⟩ := decodeAll_eq_ok_iff.1 h
    exact ⟨hlength, fun k hk => readable_of_decode (heach k (hcount ▸ hk))⟩
  · rintro ⟨hlength, hreadable⟩
    rw [decodeAll_eq_mapM hlength]
    apply exists_mapM_eq_ok
    intro record hrecord
    obtain ⟨k, hk, rfl⟩ := List.mem_map.1 hrecord
    obtain ⟨i, -, -, -, h, -⟩ := exists_decode_of_readable (hreadable k (List.mem_range.1 hk))
    exact ⟨i.wireForm, h⟩

/-- A buffer with a bad record is refused for the first one. -/
theorem decodeAll_eq_error (hlength : bytes.length % recordSize = 0) {k : Nat}
    (hk : k < bytes.length / recordSize) (hbefore : ∀ j < k, Readable (recordAt bytes j))
    (hbad : ¬Readable (recordAt bytes k)) :
    decodeAll bytes = .error (refusal (recordAt bytes k)) := by
  have hsplit : (List.range (bytes.length / recordSize)).map (recordAt bytes) =
      (List.range k).map (recordAt bytes) ++ recordAt bytes k ::
        ((List.range (bytes.length / recordSize)).drop (k + 1)).map (recordAt bytes) := by
    have htake : List.range k = (List.range (bytes.length / recordSize)).take k := by
      rw [List.take_range, Nat.min_eq_left (Nat.le_of_lt hk)]
    have hk' : k < (List.range (bytes.length / recordSize)).length := by rwa [List.length_range]
    have hdrop : k :: (List.range (bytes.length / recordSize)).drop (k + 1) =
        (List.range (bytes.length / recordSize)).drop k := by
      rw [List.drop_eq_getElem_cons hk', List.getElem_range]
    rw [← List.map_cons, ← List.map_append, hdrop, htake, List.take_append_drop]
  rw [decodeAll_eq_mapM hlength, hsplit]
  refine mapM_eq_error (fun record hrecord => ?_) (decode_of_not_readable hbad)
  obtain ⟨j, hj, rfl⟩ := List.mem_map.1 hrecord
  obtain ⟨i, -, -, -, h, -⟩ := exists_decode_of_readable (hbefore j (List.mem_range.1 hj))
  exact ⟨i.wireForm, h⟩

/-- The records of a packed stream are those of its instructions. -/
theorem recordAt_encodeAll {k : Nat} (hk : k < stream.length) :
    recordAt (encodeAll stream) k = stream[k].encode := by
  have hlength : (encodeAll stream).length % recordSize = 0 := by
    rw [length_encodeAll, Nat.mul_mod_right]
  have hrecords : (List.range ((encodeAll stream).length / recordSize)).map
      (recordAt (encodeAll stream)) = stream.map encode := by
    rw [← records_eq_map hlength, records_encodeAll]
  have hk' : k < (stream.map encode).length := by rwa [List.length_map]
  have hget := List.getElem_of_eq hrecords.symm hk'
  rw [List.getElem_map, List.getElem_map, List.getElem_range] at hget
  exact hget.symm

/-- A stream that was read comes back from its records unchanged. -/
theorem decodeAll_encodeAll_of_decodeAll (h : decodeAll bytes = .ok stream) :
    decodeAll (encodeAll stream) = .ok stream := by
  have hcanonical : ∀ i ∈ stream, i.Canonical := by
    intro i hi
    obtain ⟨k, hk, rfl⟩ := List.getElem_of_mem hi
    exact canonical_of_decode ((decodeAll_eq_ok_iff.1 h).2.2 k hk)
  have hforms : stream.map wireForm = stream.map id :=
    List.map_congr_left fun i hi => wireForm_eq_self_iff.2 (hcanonical i hi).isFloat_iff
  rw [decodeAll_encodeAll fun i hi => tagged_iff.2 (hcanonical i hi).tag_le, hforms, List.map_id]

/-- A buffer decodes just in case it is a whole number of readable records: the operation code is
in range, and a leaf has the tag of a type. The stream has one instruction for each record, which
depends on that record alone. Any other buffer is refused, for its length if that is wrong, and
otherwise for its first bad record, an unknown operation coming before an unknown type.

Writing a stream that was read keeps the first sixteen bytes of each record. It keeps the next
eight unless the record is a literal with the tag of a float type, and then they are zero, as the
last eight are in any case. The records that were written are read as the same stream. -/
theorem decodeAll_normalizes (bytes : List Byte) :
    ((∃ stream, decodeAll bytes = .ok stream) ↔
      bytes.length % 32 = 0 ∧ ∀ k < bytes.length / 32,
        (-1 ≤ recordCode (recordAt bytes k) ∧ recordCode (recordAt bytes k) ≤ 17) ∧
          (1 ≤ recordCode (recordAt bytes k) ∧ recordCode (recordAt bytes k) ≤ 3 →
            (recordOptions (recordAt bytes k)).toNat ≤ 9)) ∧
    (bytes.length % 32 ≠ 0 →
      decodeAll bytes = .error (.malformedStream (.raggedLength bytes.length))) ∧
    (bytes.length % 32 = 0 → ∀ k < bytes.length / 32,
      (∀ j < k, Readable (recordAt bytes j)) → ¬Readable (recordAt bytes k) →
        decodeAll bytes = .error (refusal (recordAt bytes k))) ∧
    ∀ stream, decodeAll bytes = .ok stream →
      stream.length = bytes.length / 32 ∧
      (∀ k (h : k < stream.length), decode (recordAt bytes k) = .ok stream[k]) ∧
      (encodeAll stream).length = bytes.length ∧
      (∀ k < stream.length, recordAt (encodeAll stream) k = rewritten (recordAt bytes k)) ∧
      decodeAll (encodeAll stream) = .ok stream := by
  refine ⟨?_, fun hlength => if_neg hlength, fun hlength k hk => decodeAll_eq_error hlength hk,
    fun stream h => ?_⟩
  · rw [exists_decodeAll_iff]
    refine and_congr_right fun _ => forall₂_congr fun k _ => ?_
    exact ⟨fun h => ⟨h.known, h.typed⟩, fun h => ⟨h.1, h.2⟩⟩
  · obtain ⟨hlength, hcount, heach⟩ := decodeAll_eq_ok_iff.1 h
    have hencoded : (encodeAll stream).length = bytes.length := by
      simp only [length_encodeAll, hcount, recordSize] at hlength ⊢
      omega
    refine ⟨hcount, heach, hencoded, fun k hk => ?_, decodeAll_encodeAll_of_decodeAll h⟩
    rw [recordAt_encodeAll hk]
    exact encode_of_decode (length_recordAt hlength (hcount ▸ hk)) (heach k hk)

end Instruction

end RowFilter
