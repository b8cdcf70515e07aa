import RowFilter.Proofs.Instruction.WireForm

/-!
# Instructions that survive their record

A record keeps the bits of a payload but not its variant, which is chosen anew when the record is
read. So an instruction comes back from its record unchanged just in case its payload has the
variant that is chosen and its tag names a type where one is needed.

## Main definitions

- `Instruction.IsFloatLiteral` — a literal with the tag of a float type.
- `Instruction.Canonical` — an instruction that comes back unchanged.

The main statement is `Instruction.decode_encode_cases`.
-/

namespace RowFilter

/-- Whether a payload is the bits of a float. -/
def Payload.isFloat : Payload → Bool
  | int _ => false
  | float _ => true

theorem DataType.tag_of_ofTag? {n : Nat} {t : DataType} (h : ofTag? n = some t) : t.tag = n := by
  unfold ofTag? at h
  split at h <;> cases h <;> rfl

theorem DataType.any_isFloat_ofTag?_iff {n : Nat} :
    (ofTag? n).any isFloat = true ↔ n = f32.tag ∨ n = f64.tag := by
  constructor
  · intro h
    obtain ⟨t, ht, hfloat⟩ := (Option.any_eq_true _ _).1 h
    rw [← tag_of_ofTag? ht]
    cases t
    case f32 => exact .inl rfl
    case f64 => exact .inr rfl
    all_goals cases hfloat
  · rintro (rfl | rfl) <;> rfl

namespace Instruction

variable {i : Instruction}

/-- A literal with the tag of a float type. -/
def IsFloatLiteral (i : Instruction) : Prop :=
  i.opcode = .leaf .literal ∧
    (i.options.toNat = DataType.f32.tag ∨ i.options.toNat = DataType.f64.tag)

/-- A leaf has the tag of a type, and the literals of float types are the instructions with a float
payload. -/
structure Canonical (i : Instruction) : Prop where
  tag_le : i.opcode.isLeaf = true → i.options.toNat ≤ 9
  isFloat_iff : i.payload.isFloat = true ↔ i.IsFloatLiteral

theorem wireForm_of_isFloatLiteral (h : i.IsFloatLiteral) :
    i.wireForm = ⟨i.opcode, i.options, .float i.payload.low⟩ := by
  rw [wireForm, if_pos ⟨h.1, DataType.any_isFloat_ofTag?_iff.2 h.2⟩, i.payload.setWidth_image]

theorem wireForm_of_not_isFloatLiteral (h : ¬i.IsFloatLiteral) :
    i.wireForm = ⟨i.opcode, i.options, .int i.payload.image⟩ := by
  rw [wireForm, if_neg fun hw => h ⟨hw.1, DataType.any_isFloat_ofTag?_iff.1 hw.2⟩]

/-- The wire form is the instruction itself if the payload has the variant that is chosen for it. -/
theorem wireForm_eq_self_iff : i.wireForm = i ↔ (i.payload.isFloat = true ↔ i.IsFloatLiteral) := by
  obtain ⟨opcode, options, payload⟩ := i
  by_cases h : IsFloatLiteral ⟨opcode, options, payload⟩
  · rw [wireForm_of_isFloatLiteral h]
    cases payload with
    | int value => simp [Payload.isFloat, h]
    | float bits => simp [Payload.isFloat, h]
  · rw [wireForm_of_not_isFloatLiteral h]
    cases payload with
    | int value => simp [Payload.isFloat, Payload.image, h]
    | float bits => simp [Payload.isFloat, h]

/-- A wire form with a known type is canonical. -/
theorem canonical_wireForm (h : i.opcode.isLeaf = true → i.options.toNat ≤ 9) :
    i.wireForm.Canonical := by
  refine ⟨by simpa using h, ?_⟩
  by_cases hfloat : i.IsFloatLiteral
  · rw [wireForm_of_isFloatLiteral hfloat]
    exact iff_of_true rfl hfloat
  · rw [wireForm_of_not_isFloatLiteral hfloat]
    exact iff_of_false Bool.false_ne_true hfloat

/-- A leaf whose tag names no type is not read back. -/
theorem decode_encode_of_lt (hleaf : i.opcode.isLeaf = true) (h : 9 < i.options.toNat) :
    decode i.encode = .error (.unknownDataType i.options.toNat) := by
  simp only [decode_eq, recordCode_encode, recordOptions_encode, recordImage_encode,
    Opcode.ofCode?_code]
  exact if_pos ⟨hleaf, h⟩

theorem Canonical.decode_encode (h : i.Canonical) : decode i.encode = .ok i := by
  rw [Instruction.decode_encode (tagged_iff.2 h.tag_le), wireForm_eq_self_iff.2 h.isFloat_iff]

/-- Reading an instruction back from its record gives the same instruction, bit for bit, just in
case it is canonical: a leaf has the tag of a type, and the payload is a float exactly in a
literal of a float type. Of all others, a leaf with an unknown tag is refused; an integer in a
literal of a float type comes back as the float that has its low 64 bits, and a float anywhere
else as the integer that is its bit pattern, extended with zeros. -/
theorem decode_encode_cases (i : Instruction) :
    (decode i.encode = .ok i ↔
      (i.opcode.isLeaf = true → i.options.toNat ≤ 9) ∧
        (i.payload.isFloat = true ↔ i.opcode = .leaf .literal ∧
          (i.options.toNat = DataType.f32.tag ∨ i.options.toNat = DataType.f64.tag))) ∧
    (i.opcode.isLeaf = true → 9 < i.options.toNat →
      decode i.encode = .error (.unknownDataType i.options.toNat)) ∧
    (∀ value, i.payload = .int value → i.IsFloatLiteral →
      decode i.encode = .ok ⟨i.opcode, i.options, .float (value.setWidth 64)⟩) ∧
    ∀ bits, i.payload = .float bits → ¬i.IsFloatLiteral →
      (i.opcode.isLeaf = true → i.options.toNat ≤ 9) →
      decode i.encode = .ok ⟨i.opcode, i.options, .int (bits.setWidth 128)⟩ := by
  refine ⟨⟨fun h => ?_, fun h => Canonical.decode_encode ⟨h.1, h.2⟩⟩, decode_encode_of_lt,
    fun value hvalue hfloat => ?_, fun bits hbits hfloat htag => ?_⟩
  · have htag : i.opcode.isLeaf = true → i.options.toNat ≤ 9 := by
      intro hleaf
      refine Nat.le_of_not_lt fun hlt => ?_
      rw [decode_encode_of_lt hleaf hlt] at h
      cases h
    rw [Instruction.decode_encode (tagged_iff.2 htag)] at h
    exact ⟨htag, wireForm_eq_self_iff.1 (Except.ok.inj h)⟩
  · have htag : i.opcode.isLeaf = true → i.options.toNat ≤ 9 := by
      intro _
      rcases hfloat.2 with h | h
      · exact h ▸ by decide
      · exact h ▸ by decide
    rw [Instruction.decode_encode (tagged_iff.2 htag), wireForm_of_isFloatLiteral hfloat, hvalue]
    rfl
  · rw [Instruction.decode_encode (tagged_iff.2 htag), wireForm_of_not_isFloatLiteral hfloat, hbits]
    rfl

end Instruction

end RowFilter
