import AlignedSlots.Container.Slots

/-!
# Reading after writing

Laws of the storage of containers, each stated once for all of them.  An element that was stored is
loaded again, as long as the block holds all of its cells; an element elsewhere is not changed by a
store.  The main statements are `Slots.load_store_self` and `Slots.load_store_of_disjoint`.
-/

namespace AlignedSlots

namespace Parcel

theorem start_overwrite (b : Parcel) (offset count : Nat) (source : Nat → Cell) :
    (b.overwrite offset count source).start = b.start := by
  rcases b with ⟨⟨base, cells⟩, start⟩
  rfl

theorem base_overwrite (b : Parcel) (offset count : Nat) (source : Nat → Cell) :
    (b.overwrite offset count source).raw.base = b.raw.base := by
  rcases b with ⟨⟨base, cells⟩, start⟩
  rfl

/-- A cell in the range holds what was written there. -/
theorem peek_overwrite_of_mem {b : Parcel} {offset count i : Nat} (source : Nat → Cell)
    (hl : offset ≤ i) (hr : i < offset + count) (hb : b.start + i < b.raw.size) :
    (b.overwrite offset count source).peek i = source (i - offset) := by
  rcases b with ⟨⟨base, cells⟩, start⟩
  have read : (cells.overwrite (start + offset) count source).peek (start + i) =
      source (start + i - (start + offset)) :=
    Cells.peek_overwrite_of_mem source (by omega) (by omega) hb
  rw [Nat.add_sub_add_left] at read
  exact read

/-- A cell outside the range holds what it held. -/
theorem peek_overwrite_of_notMem {b : Parcel} {offset count i : Nat} (source : Nat → Cell)
    (h : i < offset ∨ offset + count ≤ i) :
    (b.overwrite offset count source).peek i = b.peek i := by
  rcases b with ⟨⟨base, cells⟩, start⟩
  have outside : start + i < start + offset ∨ start + offset + count ≤ start + i := by omega
  exact Cells.peek_overwrite_of_notMem source outside

end Parcel

namespace Slots

variable {α β : Type} [Element α] [Element β]

/-- The block holds the cells below `stop` of the payload. -/
def Holds (s : Slots) (stop : Nat) : Prop :=
  ∃ block, s.block = some block ∧ block.start + stop ≤ block.raw.size

theorem capacity_store (s : Slots) (offset : Nat) (x : α) :
    (s.store offset x).capacity = s.capacity := by
  rcases s with ⟨block | block, capacity, stride, align⟩ <;> rfl

theorem stride_store (s : Slots) (offset : Nat) (x : α) :
    (s.store offset x).stride = s.stride := by
  rcases s with ⟨block | block, capacity, stride, align⟩ <;> rfl

/-- A cell outside an element is not changed by storing it. -/
theorem peek_store_of_notMem {s : Slots} {offset i : Nat} (x : α)
    (h : i < offset ∨ offset + Element.size α ≤ i) : (s.store offset x).peek i = s.peek i := by
  rcases s with ⟨block | block, capacity, stride, align⟩
  · rfl
  · exact Parcel.peek_overwrite_of_notMem _ h

/-- A cell of an element that was stored. -/
theorem peek_store_of_mem {s : Slots} {offset i : Nat} (x : α) (hi : i < Element.size α)
    (h : s.Holds (offset + Element.size α)) :
    (s.store offset x).peek (offset + i) = Element.encode x i := by
  rcases s with ⟨block | block, capacity, stride, align⟩
  · obtain ⟨_, none_eq, _⟩ := h
    cases none_eq
  · obtain ⟨_, some_eq, fits⟩ := h
    cases some_eq
    have read : (block.overwrite offset (Element.size α) (Element.encode x)).peek (offset + i) =
        Element.encode x (offset + i - offset) :=
      Parcel.peek_overwrite_of_mem _ (by omega) (by omega) (by omega)
    rw [Nat.add_sub_cancel_left] at read
    exact read

/-- An element that was stored is loaded again. -/
theorem load_store_self [LawfulElement α] {s : Slots} {offset : Nat} (x : α)
    (h : s.Holds (offset + Element.size α)) : (s.store offset x).load offset = x := by
  unfold load
  rw [← LawfulElement.decode_encode x]
  refine LawfulElement.decode_congr _ _ fun i hi => ?_
  rw [LawfulElement.decode_encode x]
  exact peek_store_of_mem x hi h

/-- An element elsewhere is loaded as before. -/
theorem load_store_of_disjoint [LawfulElement β] {s : Slots} {offset other : Nat} (x : α)
    (h : other + Element.size β ≤ offset ∨ offset + Element.size α ≤ other) :
    ((s.store offset x).load other : β) = s.load other := by
  unfold load
  refine LawfulElement.decode_congr _ _ fun i hi => ?_
  exact peek_store_of_notMem x (by omega)

end Slots

end AlignedSlots
