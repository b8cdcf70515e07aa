import RowFilter.Code
import RowFilter.Proofs.Memory.Bytes

/-!
# Growth of a literal pool

A pool only grows: a slot that was handed out keeps its image, whatever is inserted later. So code
that reads a pooled literal computes the same on the pool it was emitted against and on every
later one.

## Main definitions

- `LiteralPool.Extends` — every slot of one pool has the same image in the other.
-/

namespace RowFilter

namespace LiteralPool

/-- Every slot of `before` has the same image in `after`. -/
def Extends (before after : LiteralPool) : Prop :=
  ∀ ⦃slot : Nat⦄ ⦃image : BitVec 128⦄,
    before.slots[slot]? = some image → after.slots[slot]? = some image

theorem Extends.refl (pool : LiteralPool) : pool.Extends pool :=
  fun _ _ h => h

theorem Extends.trans {a b c : LiteralPool} (hab : a.Extends b) (hbc : b.Extends c) :
    a.Extends c :=
  fun _ _ h => hbc (hab h)

/-- An insertion keeps every slot, and the slot it returns holds the image. -/
theorem insert_extends (image : BitVec 128) (pool : LiteralPool) :
    pool.Extends (insert image pool).2 ∧
      (insert image pool).2.slots[(insert image pool).1]? = some image := by
  unfold insert
  split
  next slot hslot =>
    refine ⟨Extends.refl pool, ?_⟩
    rw [Array.idxOf?_eq_map_finIdxOf?_val, Option.map_eq_some_iff] at hslot
    obtain ⟨i, hi, rfl⟩ := hslot
    have himage := (Array.finIdxOf?_eq_some_iff.1 hi).1
    simpa using himage
  next =>
    refine ⟨?_, by simp [size]⟩
    intro slot old hold
    have hlt : slot < pool.slots.size := (Array.getElem?_eq_some_iff.1 hold).1
    rw [Array.getElem?_push_lt hlt, ← Array.getElem?_eq_getElem hlt]
    exact hold

theorem image_of_getElem? {pool : LiteralPool} {slot : Nat} {image : BitVec 128}
    (h : pool.slots[slot]? = some image) : pool.image slot = image := by
  rw [LiteralPool.image, Array.getD_eq_getD_getElem?, h, Option.getD_some]

end LiteralPool

namespace Code

/-- A load of a pooled constant reads the low bytes of its image. -/
theorem read_pooled {pool : LiteralPool} {slot : Nat} {image : BitVec 128}
    (h : pool.slots[slot]? = some image) (memory : Memory) (row : BitVec 64) {n : Nat}
    (hn : n ≤ 16) (size : Nat) :
    ((Address.pooled slot size).base.buffer ⟨memory, pool, row⟩).read n
      ((Address.pooled slot size).offset row) = image.setWidth (8 * n) := by
  have himage := LiteralPool.image_of_getElem? h
  have hread := Buffer.read_ofBytes_bytes hn (by decide) (pool.image slot)
  rw [himage] at hread
  simpa [Address.pooled, Address.offset, Region.buffer, LiteralPool.bytes, himage] using hread

end Code

end RowFilter
