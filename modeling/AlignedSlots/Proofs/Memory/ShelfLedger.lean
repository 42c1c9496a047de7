import Mathlib
import AlignedSlots.Proofs.Memory.ShelfLaws

/-!
# The ledger of a shelf

`Shelf.Ledger` is what every step with the blocks of a shelf keeps: every block is placed, no two raw
blocks share an address, and the raw blocks of the shelf are the ones that are out.  The first section
says what granting, giving back and changing a block do to it.

`Shelf.Intact` says the same in the words of one memory that is read by address.
-/

namespace AlignedSlots

namespace Shelf

variable {items items' rest : List ShelfItem} {heap : Heap} {i j old : ShelfItem}
  {s s' : Shelf}

/-! ## The ledger -/

/-- Every block is placed, and the raw blocks are apart and the ones that are out. -/
structure Ledger (items : List ShelfItem) (heap : Heap) : Prop where
  placed : ∀ i ∈ items, ∃ align, i.block.Placed align i.size
  apart : Apart items
  live : (items.map ShelfItem.region).Perm (liveRegions heap.history)
  freed : WellFreed heap.history

theorem Ledger.perm (h : Ledger items heap) (hperm : items'.Perm items) : Ledger items' heap :=
  ⟨fun i hi => h.placed i (hperm.mem_iff.mp hi), h.apart.perm hperm, (hperm.map _).trans h.live,
    h.freed⟩

/-- A block that is granted is apart from all others. -/
theorem Ledger.granted (h : Ledger items heap) (name : String) {align size base : Nat}
    {fill : UInt8} {b : Parcel} (hgrant : Parcel.Grants heap align size fill b base)
    (valid : ValidAlign align) (sound : heap.placement.Sound) :
    Ledger (⟨name, b, size⟩ :: items)
      (heap.after [.granted (Parcel.totalSize align size) base]) := by
  obtain ⟨hplaced, hbase, hsize, _⟩ := hgrant.placed valid sound.inBounds
  have hregion : b.raw.region = ⟨base, Parcel.totalSize align size⟩ := by
    unfold RawBlock.region
    rw [hbase, hsize]
  refine ⟨?_, ?_, ?_, h.freed⟩
  · intro i hi
    rcases List.mem_cons.mp hi with rfl | hi
    · exact ⟨align, hplaced⟩
    · exact h.placed i hi
  · refine List.pairwise_cons.mpr ⟨fun j hj => ?_, h.apart⟩
    have hout : j.region ∈ liveRegions heap.history :=
      h.live.mem_iff.mp (List.mem_map.mpr ⟨j, hj, rfl⟩)
    show Region.Apart b.raw.region j.region
    rw [hregion]
    exact (sound _ _ _ hgrant.2.2.1).2 _ hout
  · show ((b.raw.region :: items.map ShelfItem.region).Perm
      (⟨base, Parcel.totalSize align size⟩ :: liveRegions heap.history))
    rw [hregion]
    exact h.live.cons _

theorem Ledger.size_pos (h : Ledger items heap) (hi : i ∈ items) : 0 < i.block.raw.size := by
  obtain ⟨align, hplaced⟩ := h.placed i hi
  have hroom : 2 ≤ i.block.start := hplaced.room
  have hfits := hplaced.fits
  omega

/-- A block that is given back takes its raw block with it, and no other. -/
theorem Ledger.given (h : Ledger (old :: rest) heap) :
    Ledger rest (heap.after [.freed old.block.raw.base]) := by
  obtain ⟨hhead, htail⟩ := List.pairwise_cons.mp h.apart
  have hold := h.size_pos List.mem_cons_self
  have hothers : ∀ r ∈ rest.map ShelfItem.region, (r.base != old.block.raw.base) = true := by
    intro r hr
    obtain ⟨j, hj, rfl⟩ := List.mem_map.mp hr
    have hpos := h.size_pos (List.mem_cons_of_mem _ hj)
    have hapart : old.block.raw.base + old.block.raw.size ≤ j.block.raw.base ∨
        j.block.raw.base + j.block.raw.size ≤ old.block.raw.base := hhead j hj
    apply bne_iff_ne.mpr
    show j.block.raw.base ≠ old.block.raw.base
    omega
  have hlive : ((old :: rest).map ShelfItem.region).Perm (liveRegions heap.history) := h.live
  refine ⟨fun i hi => h.placed i (List.mem_cons_of_mem _ hi), htail, ?_, ?_⟩
  · have hfilter := hlive.filter fun r => r.base != old.block.raw.base
    rw [List.map_cons, List.filter_cons_of_neg (by simp [ShelfItem.region, RawBlock.region]),
      List.filter_eq_self.mpr hothers] at hfilter
    exact hfilter
  · exact ⟨⟨old.region, hlive.mem_iff.mp List.mem_cons_self, rfl⟩, h.freed⟩

/-- A block whose content changes stays where it is. -/
theorem Ledger.changed (h : Ledger (old :: rest) heap) {name : String} {b : Parcel} {align size : Nat}
    (hregion : b.raw.region = old.region) (hplaced : b.Placed align size) :
    Ledger (⟨name, b, size⟩ :: rest) heap := by
  obtain ⟨hhead, htail⟩ := List.pairwise_cons.mp h.apart
  refine ⟨?_, ?_, ?_, h.freed⟩
  · intro i hi
    rcases List.mem_cons.mp hi with rfl | hi
    · exact ⟨align, hplaced⟩
    · exact h.placed i (List.mem_cons_of_mem _ hi)
  · refine List.pairwise_cons.mpr ⟨fun j hj => ?_, htail⟩
    show Region.Apart b.raw.region j.region
    rw [hregion]
    exact hhead j hj
  · show ((b.raw.region :: rest.map ShelfItem.region).Perm (liveRegions heap.history))
    rw [hregion]
    exact h.live

/-! ## Reading a block in the memory -/

theorem Ledger.cellAt_eq (h : Ledger s.items heap) (hi : i ∈ s.items) {k : Nat}
    (hk : k < i.block.raw.size) :
    s.cellAt (i.block.raw.base + k) = some (i.block.raw.cells.peek k) := by
  have hcovers : i.Covers (i.block.raw.base + k) := ⟨by omega, by omega⟩
  unfold cellAt
  rw [memory_eq h.apart hi hcovers]
  unfold ShelfItem.cellAt
  rw [Nat.add_sub_cancel_left]

/-- A byte of a payload. -/
theorem Ledger.cellAt_payload (h : Ledger s.items heap) (hi : i ∈ s.items) {k : Nat}
    (hk : k < i.size) : s.cellAt (i.block.address + k) = some (i.block.peek k) := by
  obtain ⟨align, hplaced⟩ := h.placed i hi
  have hfits := hplaced.fits
  have hcell := h.cellAt_eq hi (k := i.block.start + k) (by omega)
  rw [← Nat.add_assoc] at hcell
  exact hcell

/-! ## What a ledger says about the memory -/

/-- A shelf whose blocks are whole, in the words of its memory and of the calls to the heap. -/
structure Intact (s : Shelf) (heap : Heap) : Prop where
  /-- The distance in front of a payload and the payload lie in the raw block of the block. -/
  inside : ∀ i ∈ s.items, i.block.raw.base ≤ i.block.address - 2 ∧ 2 ≤ i.block.address ∧
    i.block.address + i.size ≤ i.block.raw.base + i.block.raw.size
  /-- They have no address in common with those of another block. -/
  disjoint : s.items.Pairwise fun i j =>
    i.block.address + i.size ≤ j.block.address - 2 ∨ j.block.address + j.size ≤ i.block.address - 2
  /-- The two bytes in front of a payload hold its distance from the start of the raw block. -/
  marked : ∀ i ∈ s.items, ∃ low high, s.cellAt (i.block.address - 2) = some low ∧
    s.cellAt (i.block.address - 1) = some high ∧
    low.toByte.toNat + 256 * high.toByte.toNat = i.block.address - i.block.raw.base
  /-- The raw blocks of the shelf are the ones that are out. -/
  live : (s.items.map ShelfItem.region).Perm (liveRegions heap.history)
  /-- Every free took back a block that was out. -/
  freed : WellFreed heap.history

theorem Ledger.intact (h : Ledger s.items heap) : s.Intact heap := by
  have hinside : ∀ i ∈ s.items, i.block.raw.base ≤ i.block.address - 2 ∧ 2 ≤ i.block.address ∧
      i.block.address + i.size ≤ i.block.raw.base + i.block.raw.size := by
    intro i hi
    obtain ⟨align, hplaced⟩ := h.placed i hi
    have hroom : 2 ≤ i.block.start := hplaced.room
    have hfits := hplaced.fits
    unfold Parcel.address
    omega
  refine ⟨hinside, ?_, ?_, h.live, h.freed⟩
  · apply h.apart.imp_of_mem
    intro i j hi hj hapart
    have hapart : i.block.raw.base + i.block.raw.size ≤ j.block.raw.base ∨
        j.block.raw.base + j.block.raw.size ≤ i.block.raw.base := hapart
    obtain ⟨hi_low, _, hi_high⟩ := hinside i hi
    obtain ⟨hj_low, _, hj_high⟩ := hinside j hj
    omega
  · intro i hi
    obtain ⟨align, hplaced⟩ := h.placed i hi
    have hroom : 2 ≤ i.block.start := hplaced.room
    have hfits := hplaced.fits
    have hmarked := hplaced.marked
    have hlow : i.block.address - 2 = i.block.raw.base + (i.block.start - 2) := by
      unfold Parcel.address
      omega
    have hhigh : i.block.address - 1 = i.block.raw.base + (i.block.start - 1) := by
      unfold Parcel.address
      omega
    refine ⟨i.block.raw.cells.peek (i.block.start - 2), i.block.raw.cells.peek (i.block.start - 1),
      ?_, ?_, ?_⟩
    · rw [hlow]
      exact h.cellAt_eq hi (by omega)
    · rw [hhigh]
      exact h.cellAt_eq hi (by omega)
    · unfold Parcel.address
      rw [Nat.add_sub_cancel_left]
      exact hmarked

end Shelf

end AlignedSlots
