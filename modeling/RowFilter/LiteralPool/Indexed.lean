import RowFilter.LiteralPool
import Std.Data.HashMap

/-!
# A literal pool with an index

A pool that looks images up in a hash index instead of searching its slots, so the cost of an
insertion does not grow with the number of literals.

## Main definitions

- `IndexedPool` — a pool and an index of its images.
- `IndexedPool.insert` — the slot of an image, by the index.

The main statement is `IndexedPool.insert_eq`: the slots handed out are those of the search.

## Design notes

What makes an index correct is part of the type. It leads from each stored image to the slot of that
image, and from no other image to anywhere; a slot that is off by one, or an image that is left out
of the index, cannot be written down. It follows that no two slots hold one image.
-/

namespace RowFilter

/-- A pool together with an index from images to slots. -/
structure IndexedPool where
  pool : LiteralPool
  index : Std.HashMap (BitVec 128) Nat
  /-- The index leads from the stored images, and from no others, to their slots. -/
  agrees : ∀ (image : BitVec 128) (slot : Nat),
    index[image]? = some slot ↔ pool.slots[slot]? = some image

namespace IndexedPool

variable {p : IndexedPool} {image : BitVec 128}

def empty : IndexedPool :=
  ⟨.empty, ∅, by simp [LiteralPool.empty]⟩

/-- No two slots hold one image. -/
theorem slot_unique (p : IndexedPool) {a b : Nat} (ha : p.pool.slots[a]? = some image)
    (hb : p.pool.slots[b]? = some image) : a = b :=
  Option.some.inj (((p.agrees image a).2 ha).symm.trans ((p.agrees image b).2 hb))

/-- An image that is new to the index is indexed at the slot it is appended at. -/
theorem agrees_push (h : p.index[image]? = none) (other : BitVec 128) (slot : Nat) :
    (p.index.insert image p.pool.size)[other]? = some slot ↔
      (p.pool.slots.push image)[slot]? = some other := by
  rw [Std.HashMap.getElem?_insert, Array.getElem?_push]
  by_cases hslot : slot = p.pool.slots.size
  · -- The new slot: the index leads there from the new image only.
    rw [if_pos hslot]
    have hother : p.index[other]? ≠ some slot := fun hold => by
      have hlt := (Array.getElem?_eq_some_iff.1 ((p.agrees other slot).1 hold)).1
      omega
    by_cases himage : image = other
    · simp [himage, hslot, LiteralPool.size]
    · simp [himage, hother]
  · rw [if_neg hslot, ← p.agrees other slot]
    by_cases himage : image = other
    · subst himage
      simpa [h, LiteralPool.size] using Ne.symm hslot
    · simp [himage]

/-- The slot of an image. The index knows the slot of an image that is present; a new image is
appended and indexed. -/
def insert (image : BitVec 128) : StateM IndexedPool Nat := fun p =>
  match h : p.index[image]? with
  | some slot => (slot, p)
  | none =>
    (p.pool.size,
      ⟨⟨p.pool.slots.push image⟩, p.index.insert image p.pool.size, agrees_push h⟩)

/-- The index answers what a search of the slots would. -/
theorem idxOf?_slots (p : IndexedPool) (image : BitVec 128) :
    p.pool.slots.idxOf? image = p.index[image]? := by
  cases hsearch : p.pool.slots.idxOf? image with
  | none =>
    have hmem : image ∉ p.pool.slots := Array.idxOf?_eq_none_iff.1 hsearch
    symm
    rw [Option.eq_none_iff_forall_ne_some]
    intro slot hslot
    exact hmem (Array.mem_of_getElem? ((p.agrees image slot).1 hslot))
  | some slot =>
    rw [Array.idxOf?_eq_map_finIdxOf?_val, Option.map_eq_some_iff] at hsearch
    obtain ⟨i, hi, rfl⟩ := hsearch
    have himage := (Array.finIdxOf?_eq_some_iff.1 hi).1
    exact ((p.agrees image i).2 (by simpa using himage)).symm

/-- Looking an image up and searching for it lead to the same slot and the same pool. -/
theorem insert_eq (image : BitVec 128) (p : IndexedPool) :
    ((insert image p).1, (insert image p).2.pool) = LiteralPool.insert image p.pool := by
  unfold insert LiteralPool.insert
  rw [idxOf?_slots]
  split
  next slot h => simp [h]
  next h => simp [h]

end IndexedPool

end RowFilter
