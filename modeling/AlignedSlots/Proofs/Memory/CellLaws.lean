import Mathlib
import AlignedSlots.Container.SlotLaws

/-!
# Reading after copying and moving

`Cells.peek_overwrite` says what a stretch of memory holds after a write.  The laws here say the same
for the writes that are made of it: bytes from a list, a move inside a stretch, where the two ranges
may overlap, and a copy from another stretch.  Then come their forms for the payload of a block.
-/

namespace AlignedSlots

namespace Cells

@[simp] theorem size_writeBytes (m : Cells) (start : Nat) (bytes : List UInt8) :
    (m.writeBytes start bytes).size = m.size := rfl

@[simp] theorem size_fill (m : Cells) (start count : Nat) (value : UInt8) :
    (m.fill start count value).size = m.size := by
  unfold fill
  split <;> rfl

/-- Filling all of a stretch leaves nothing of what was there. -/
theorem fill_filled (size : Nat) (value value' : UInt8) :
    (filled size value).fill 0 size value' = filled size value' := by
  unfold fill
  rw [if_pos ⟨rfl, Nat.le_refl size⟩]
  rfl

@[simp] theorem size_copy (m : Cells) (start : Nat) (source : Cells) (origin count : Nat) :
    (m.copy start source origin count).size = m.size := by
  unfold copy
  simp only
  split <;> rfl

/-- After bytes were written, a cell in their range holds one of them, and every other cell what it
held. -/
theorem peek_writeBytes (m : Cells) (start : Nat) (bytes : List UInt8) (i : Nat) :
    (m.writeBytes start bytes).peek i =
      if start ≤ i ∧ i < start + bytes.length ∧ i < m.size then .byte (bytes.getD (i - start) 0)
      else m.peek i := by
  unfold writeBytes
  rw [peek_overwrite]
  simp only [List.size_toArray]
  split
  · rw [Array.getD_eq_getD_getElem?, List.getElem?_toArray, List.getD_eq_getElem?_getD]
  · rfl

/-- A move reads all of its source before it writes. -/
theorem peek_move (m : Cells) {source target count : Nat} (hs : source + count ≤ m.size) (i : Nat) :
    (m.move source target count).peek i =
      if target ≤ i ∧ i < target + count ∧ i < m.size then m.peek (source + (i - target))
      else m.peek i := by
  have hreach : min count (m.size - source) = count := by omega
  have hmove : m.move source target count = m.overwrite target (min count (m.size - source))
      fun i => (m.front.extract source (source + count)).getD i m.rest := rfl
  rw [hmove, hreach, peek_overwrite]
  split
  · next inside =>
    have hread : m.peek (source + (i - target)) =
        m.front.getD (source + (i - target)) m.rest := by
      unfold peek
      rw [if_pos (by omega)]
    rw [hread, Array.getD_eq_getD_getElem?, Array.getD_eq_getD_getElem?, Array.getElem?_extract]
    by_cases hfront : source + (i - target) < m.front.size
    · rw [if_pos (by omega)]
    · rw [if_neg (by omega), Array.getElem?_eq_none (by omega)]
  · rfl

end Cells

namespace Parcel

@[simp] theorem start_mapCells (b : Parcel) (f : Cells → Cells) : (b.mapCells f).start = b.start := by
  rcases b with ⟨⟨base, cells⟩, start⟩
  rfl

@[simp] theorem base_mapCells (b : Parcel) (f : Cells → Cells) :
    (b.mapCells f).raw.base = b.raw.base := by
  rcases b with ⟨⟨base, cells⟩, start⟩
  rfl

@[simp] theorem cells_mapCells (b : Parcel) (f : Cells → Cells) :
    (b.mapCells f).raw.cells = f b.raw.cells := by
  rcases b with ⟨⟨base, cells⟩, start⟩
  rfl

@[simp] theorem address_mapCells (b : Parcel) (f : Cells → Cells) :
    (b.mapCells f).address = b.address := by
  unfold address
  rw [base_mapCells, start_mapCells]

/-- A cell of the payload after a move inside it. -/
theorem peek_move {b : Parcel} {source target count : Nat}
    (hs : b.start + (source + count) ≤ b.raw.size) (ht : b.start + (target + count) ≤ b.raw.size)
    (i : Nat) :
    (b.move source target count).peek i =
      if target ≤ i ∧ i < target + count then b.peek (source + (i - target)) else b.peek i := by
  unfold peek move
  unfold RawBlock.size at hs ht
  simp only [cells_mapCells, start_mapCells]
  rw [Cells.peek_move _ (by omega)]
  by_cases h : target ≤ i ∧ i < target + count
  · rw [if_pos (by omega), if_pos h]
    congr 1
    omega
  · rw [if_neg (by omega), if_neg h]

/-- A cell of the payload after the first cells of another payload were written over it. -/
theorem peek_copy {b source : Parcel} {count : Nat} (h : b.start + count ≤ b.raw.size) (i : Nat) :
    (b.copy source count).peek i = if i < count then source.peek i else b.peek i := by
  unfold peek copy
  unfold RawBlock.size at h
  simp only [cells_mapCells, start_mapCells]
  rw [Cells.peek_copy]
  by_cases hi : i < count
  · rw [if_pos (by omega), if_pos hi, Nat.add_sub_cancel_left]
  · rw [if_neg (by omega), if_neg hi]

/-- A cell of the payload after bytes were written into it. -/
theorem peek_writeBytes {b : Parcel} {offset : Nat} {bytes : List UInt8}
    (h : b.start + (offset + bytes.length) ≤ b.raw.size) (i : Nat) :
    (b.writeBytes offset bytes).peek i =
      if offset ≤ i ∧ i < offset + bytes.length then .byte (bytes.getD (i - offset) 0)
      else b.peek i := by
  unfold peek writeBytes
  unfold RawBlock.size at h
  simp only [cells_mapCells, start_mapCells]
  rw [Cells.peek_writeBytes]
  by_cases hi : offset ≤ i ∧ i < offset + bytes.length
  · rw [if_pos (by omega), if_pos hi, Nat.add_sub_add_left]
  · rw [if_neg (by omega), if_neg hi]

end Parcel

end AlignedSlots
