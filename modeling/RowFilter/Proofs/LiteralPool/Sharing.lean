import Mathlib.Data.Finset.Card
import Mathlib.Data.List.Forall2
import RowFilter.LiteralPool.Indexed
import RowFilter.Proofs.LiteralPool.Growth

/-!
# Sharing of slots

A pool that constants of all types were inserted into, one after another. Constants share a slot
just in case they have one image, no slot is written again, and there are no more slots than images.

Each insertion keeps what the slots hold (`LiteralPool.insert_extends`) and adds at most its own
image. That no image gets a second slot is seen on the pool with an index, where it follows from
what makes the index correct: the run with the index hands out the same slots.

## Main definitions

- `LiteralPool.Constant` — a constant to be pooled, with the bytes of its slot and the word it is
  read back as.
- `LiteralPool.insertAll` — the slots of a list of constants.

## Main statements

- `LiteralPool.mem_insert`, `LiteralPool.mem_insertAll` — the images a pool holds, after one
  insertion and after many.
- `LiteralPool.insertAll_holds` — every slot that was handed out holds its constant at the end.
- `IndexedPool.insertAll_eq` — the run with an index.
- `LiteralPool.size_insertAll` — the number of slots.
-/

namespace RowFilter

namespace LiteralPool

/-- A constant to be pooled. -/
inductive Constant where
  /-- A slot, given byte by byte. -/
  | raw (content : Vector Byte 16)
  | wide (value : BitVec 128)
  | single (bits : BitVec 32)
  | double (bits : BitVec 64)
  deriving DecidableEq, Repr

namespace Constant

/-- The slot of a constant, by the insertion for its type. -/
def insert : Constant → StateM LiteralPool Nat
  | raw content => LiteralPool.insert (LittleEndian.word 16 content.toList)
  | wide value => insertWide value
  | single bits => insertSingle bits
  | double bits => insertDouble bits

/-- The image a constant is pooled as. -/
def image : Constant → BitVec 128
  | raw content => LittleEndian.word 16 content.toList
  | wide value => value
  | single bits => bits.setWidth 128
  | double bits => bits.setWidth 128

/-- The bytes of the slot: those of the constant in little-endian order, and zeros behind them. -/
def bytes : Constant → List Byte
  | raw content => content.toList
  | wide value => LittleEndian.bytes 16 value
  | single bits => LittleEndian.bytes 4 bits ++ List.replicate 12 0
  | double bits => LittleEndian.bytes 8 bits ++ List.replicate 8 0

/-- The type a constant is read back at. -/
def dataType : Constant → DataType
  | raw _ | wide _ => .i128
  | single _ => .f32
  | double _ => .f64

/-- What a constant is in a register, bit for bit. -/
def word : Constant → Word
  | raw content => .i128 (LittleEndian.word 16 content.toList)
  | wide value => .i128 value
  | single bits => .f32 bits
  | double bits => .f64 bits

/-- The code that reads a constant from a slot. -/
def code (c : Constant) (slot : Nat) : Code :=
  .load c.dataType (.pooled slot c.dataType.size)

theorem insert_eq (c : Constant) : c.insert = LiteralPool.insert c.image := by
  cases c <;> rfl

/-- The image a constant is pooled as has the bytes the slot should have. -/
theorem bytes_image (c : Constant) : LittleEndian.bytes 16 c.image = c.bytes := by
  cases c with
  | raw content =>
    have hlength : content.toList.length = 16 := by simp
    rw [image, LittleEndian.bytes_word hlength.ge, List.take_of_length_le hlength.le, bytes]
  | wide value => rfl
  | single bits => exact LittleEndian.bytes_setWidth 12 4 bits
  | double bits => exact LittleEndian.bytes_setWidth 8 8 bits

/-- Constants with the same bytes have one image, of whatever types they are. -/
theorem image_eq_iff (c d : Constant) : c.image = d.image ↔ c.bytes = d.bytes := by
  rw [← bytes_image, ← bytes_image, LittleEndian.bytes_inj]

variable {c : Constant} {pool : LiteralPool} {slot : Nat}

theorem bytes_slot (h : pool.slots[slot]? = some c.image) : pool.bytes slot = c.bytes := by
  rw [LiteralPool.bytes, image_of_getElem? h, bytes_image]

/-- A slot that holds a constant reads back as that constant, bit for bit. -/
theorem eval_code (h : pool.slots[slot]? = some c.image) (memory : Memory) (row : BitVec 64) :
    (c.code slot).eval ⟨memory, pool, row⟩ = c.word := by
  have hread {n : Nat} (hn : n ≤ 16) (size : Nat) := Code.read_pooled h memory row hn size
  cases c with
  | raw | wide => exact congrArg Word.i128 ((hread le_rfl 16).trans (BitVec.setWidth_eq _))
  | single bits =>
    refine congrArg Word.f32 ((hread (n := 4) (by decide) 4).trans ?_)
    simp [Constant.image]
  | double bits =>
    refine congrArg Word.f64 ((hread (n := 8) (by decide) 8).trans ?_)
    simp [Constant.image]

end Constant

/-- The slots of constants that are inserted one after the other. -/
def insertAll (constants : List Constant) : StateM LiteralPool (List Nat) :=
  constants.mapM Constant.insert

end LiteralPool

open LiteralPool (Constant)

/-- The slots of constants that are inserted one after the other, by the index. -/
def IndexedPool.insertAll (constants : List Constant) : StateM IndexedPool (List Nat) :=
  constants.mapM fun c => IndexedPool.insert c.image

variable {pool : LiteralPool} {constants : List Constant}

namespace LiteralPool

theorem insertAll_nil (pool : LiteralPool) : insertAll [] pool = ([], pool) :=
  rfl

theorem insertAll_cons (c : Constant) (constants : List Constant) (pool : LiteralPool) :
    insertAll (c :: constants) pool =
      ((c.insert pool).1 :: (insertAll constants (c.insert pool).2).1,
        (insertAll constants (c.insert pool).2).2) := by
  rw [insertAll, List.mapM_cons]
  rfl

theorem insertAll_append (first rest : List Constant) (pool : LiteralPool) :
    (insertAll (first ++ rest) pool).2 = (insertAll rest (insertAll first pool).2).2 := by
  induction first generalizing pool with
  | nil => rfl
  | cons c first ih => rw [List.cons_append, insertAll_cons, insertAll_cons, ih]

/-- One insertion adds its own image and no other. -/
theorem mem_insert {image other : BitVec 128} :
    other ∈ (insert image pool).2.slots ↔ other ∈ pool.slots ∨ other = image := by
  unfold insert
  split
  next slot hslot =>
    -- The pool stays as it is, so an image that was found has to be in it.
    refine (or_iff_left_of_imp ?_).symm
    rintro rfl
    by_contra hmem
    rw [Array.idxOf?_eq_none_iff.2 hmem] at hslot
    cases hslot
  next => exact Array.mem_push

/-- The images of a run are those there were before and those that were inserted. -/
theorem mem_insertAll {image : BitVec 128} :
    image ∈ (insertAll constants pool).2.slots ↔
      image ∈ pool.slots ∨ ∃ c ∈ constants, image = c.image := by
  induction constants generalizing pool with
  | nil => simp [insertAll_nil]
  | cons c constants ih =>
    rw [insertAll_cons, ih, c.insert_eq, mem_insert, or_assoc]
    simp only [List.exists_mem_cons_iff]

/-- A run keeps every slot. -/
theorem insertAll_extends (constants : List Constant) (pool : LiteralPool) :
    pool.Extends (insertAll constants pool).2 := by
  induction constants generalizing pool with
  | nil => exact .refl pool
  | cons c constants ih =>
    rw [insertAll_cons, c.insert_eq]
    exact (insert_extends c.image pool).1.trans (ih _)

/-- At the end of a run every slot holds the constant it was handed out for. -/
theorem insertAll_holds (constants : List Constant) (pool : LiteralPool) :
    List.Forall₂ (fun c slot => (insertAll constants pool).2.slots[slot]? = some c.image) constants
      (insertAll constants pool).1 := by
  induction constants generalizing pool with
  | nil => exact .nil
  | cons c constants ih =>
    rw [insertAll_cons, c.insert_eq]
    -- The first slot is kept by the insertions that follow.
    exact .cons (insertAll_extends constants _ (insert_extends c.image pool).2) (ih _)

end LiteralPool

namespace IndexedPool

/-- A run with an index hands out the same slots, and ends with the same pool. -/
theorem insertAll_eq (constants : List Constant) (p : IndexedPool) :
    ((insertAll constants p).1, (insertAll constants p).2.pool) =
      LiteralPool.insertAll constants p.pool := by
  induction constants generalizing p with
  | nil => rfl
  | cons c constants ih =>
    have hcons : insertAll (c :: constants) p =
        ((insert c.image p).1 :: (insertAll constants (insert c.image p).2).1,
          (insertAll constants (insert c.image p).2).2) := by
      rw [insertAll, List.mapM_cons]
      rfl
    rw [hcons, LiteralPool.insertAll_cons, c.insert_eq, ← insert_eq, ← ih]

end IndexedPool

namespace LiteralPool

/-- From an empty pool on, no image is in two slots. -/
theorem slot_unique_insertAll (constants : List Constant) {image : BitVec 128} {a b : Nat}
    (ha : (insertAll constants empty).2.slots[a]? = some image)
    (hb : (insertAll constants empty).2.slots[b]? = some image) : a = b := by
  -- The pool alone does not say so, but it is the pool of a run with an index.
  have hpool := congrArg Prod.snd (IndexedPool.insertAll_eq constants .empty)
  change _ = (insertAll constants empty).2 at hpool
  rw [← hpool] at ha hb
  exact IndexedPool.slot_unique _ ha hb

/-- From an empty pool on, there are as many slots as there are images. -/
theorem size_insertAll (constants : List Constant) :
    (insertAll constants empty).2.size = (constants.map Constant.bytes).toFinset.card := by
  set slots := (insertAll constants empty).2.slots.toList with hslots
  have hnodup : slots.Nodup := by
    rw [List.nodup_iff_injective_get]
    intro a b hab
    apply Fin.ext
    apply slot_unique_insertAll constants
    · show _ = some (slots.get a)
      simp [hslots]
    · rw [hab]
      simp [hslots]
  have himages : slots.toFinset.image (LittleEndian.bytes 16) =
      (constants.map Constant.bytes).toFinset := by
    ext content
    simp [hslots, mem_insertAll, empty, ← Constant.bytes_image]
  have hinj : Function.Injective (LittleEndian.bytes 16) := fun _ _ => LittleEndian.bytes_inj.1
  rw [← himages, Finset.card_image_of_injective _ hinj, List.toFinset_card_of_nodup hnodup]
  simp [hslots, size]

end LiteralPool

end RowFilter
