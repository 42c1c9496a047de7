import Mathlib
import AlignedSlots.Proofs.Memory.CellLaws
import AlignedSlots.Proofs.Memory.LiveBlocks
import AlignedSlots.Proofs.Memory.Rounding
import AlignedSlots.Proofs.Program

/-!
# Placed blocks

`Parcel.Placed b align size` says that a block is what its holder relies on: its payload starts at a
multiple of the alignment and fits into the raw block, the two bytes in front of it are in the raw
block too, and the distance kept there leads back to the start of the raw block.

A heap whose placement is `Placement.InBounds` hands out blocks that end inside the address space.  On
such a heap `Parcel.allocate` answers a placed block or an error, and `Parcel.resize` and
`Parcel.release` work on placed blocks; `Parcel.allocate_ends`, `Parcel.resize_ends` and
`Parcel.release_eq` say exactly how, with the calls to the heap that each of them makes.
-/

namespace AlignedSlots

/-- The heap after some more calls, the latest one first. -/
def Heap.after (h : Heap) (events : List HeapEvent) : Heap :=
  { h with history := events ++ h.history }

namespace Heap

variable (h : Heap) (events : List HeapEvent)

@[simp] theorem placement_after : (h.after events).placement = h.placement := rfl

@[simp] theorem history_after : (h.after events).history = events ++ h.history := rfl

/-- The heap was not asked, or refused. -/
def Unmoved (heap heap' : Heap) : Prop := heap' = heap ∨ ∃ size, heap' = heap.after [.refused size]

end Heap

section Request

variable {ε : Type} {heap : Heap} {size : Nat}

theorem Host.request_of_eq_none (h : heap.placement heap.history size = none)
    (log : Log) : Host.request (ε := ε) size ⟨heap, log⟩ =
      .ok none ⟨heap.after [.refused size], log⟩ := by
  unfold Host.request Heap.request
  simp only [h]
  rfl

theorem Host.request_of_eq_some {base : Nat} (h : heap.placement heap.history size = some base)
    (log : Log) : Host.request (ε := ε) size ⟨heap, log⟩ =
      .ok (some ⟨base, Cells.filled size heap.fresh⟩) ⟨heap.after [.granted size base], log⟩ := by
  unfold Host.request Heap.request
  simp only [h]
  rfl

end Request

theorem ValidAlign.pos {align : Nat} (h : ValidAlign align) : 0 < align :=
  Nat.pos_of_isPowerOfTwo h.1

namespace Parcel

/-- The size of the raw block that is asked for. -/
def totalSize (align size : Nat) : Nat := size + (align + 1)

/-- The payload of a raw block: at the first multiple of the alignment that leaves room for the
distance. -/
def cut (raw : RawBlock) (align : Nat) : Parcel :=
  let distance := Layout.roundUp (raw.base + distanceSize) align - raw.base
  (Parcel.mk raw distance).storeDistance distance

/-- A block whose payload of `size` bytes is aligned, and whose raw block can be found again. -/
structure Placed (b : Parcel) (align size : Nat) : Prop where
  room : distanceSize ≤ b.start
  near : b.start ≤ align + 1
  aligned : align ∣ b.address
  fits : b.start + size ≤ b.raw.size
  bounded : b.raw.base + b.raw.size ≤ 2 ^ Word.width
  marked : b.distance = b.start

/-! ## The distance in front of a payload -/

theorem storeDistance_eq (b : Parcel) (distance : Nat) :
    b.storeDistance distance = b.mapCells fun cells => cells.writeBytes (b.start - distanceSize)
      (littleEndian (BitVec.ofNat 16 distance)) := rfl

theorem length_littleEndian {w : Nat} (x : BitVec w) : (littleEndian x).length = w / 8 := by
  simp [littleEndian]

/-- The two bytes hold every distance that occurs. -/
theorem distance_storeDistance {b : Parcel} {d : Nat} (room : distanceSize ≤ b.start)
    (inside : b.start ≤ b.raw.size) (small : d < 2 ^ 16) : (b.storeDistance d).distance = d := by
  have hroom : 2 ≤ b.start := room
  have hlen : (littleEndian (BitVec.ofNat 16 d)).length = 2 := length_littleEndian _
  have hd : (BitVec.ofNat 16 d).toNat = d := by
    rw [BitVec.toNat_ofNat, Nat.mod_eq_of_lt small]
  have low : (byteAt (BitVec.ofNat 16 d) 0).toNat = d % 256 := by
    rw [toNat_byteAt, hd]
    simp
  have high : (byteAt (BitVec.ofNat 16 d) 1).toNat = d / 256 % 256 := by
    have hpow : 2 ^ (8 * 1) = 256 := rfl
    rw [toNat_byteAt, hd, hpow]
  unfold RawBlock.size at inside
  rw [storeDistance_eq]
  unfold distance
  simp only [cells_mapCells, start_mapCells, distanceSize]
  rw [Cells.peek_writeBytes, Cells.peek_writeBytes, hlen, if_pos (by omega), if_pos (by omega)]
  have hone : b.start - 1 - (b.start - 2) = 1 := by omega
  rw [Nat.sub_self, hone]
  show (byteAt (BitVec.ofNat 16 d) 0).toNat + 256 * (byteAt (BitVec.ofNat 16 d) 1).toNat = d
  omega

/-- The payload is not touched by keeping the distance in front of it. -/
theorem peek_storeDistance {b : Parcel} (d : Nat) (room : distanceSize ≤ b.start) (i : Nat) :
    (b.storeDistance d).peek i = b.peek i := by
  have hroom : 2 ≤ b.start := room
  have hlen : (littleEndian (BitVec.ofNat 16 d)).length = 2 := length_littleEndian _
  rw [storeDistance_eq]
  unfold peek
  simp only [cells_mapCells, start_mapCells, distanceSize]
  rw [Cells.peek_writeBytes, hlen, if_neg (by omega)]

/-! ## Cutting a payload out of a raw block -/

section Cut

variable {raw : RawBlock} {align size : Nat}

@[simp] theorem base_cut (raw : RawBlock) (align : Nat) : (cut raw align).raw.base = raw.base :=
  base_mapCells _ _

@[simp] theorem start_cut (raw : RawBlock) (align : Nat) :
    (cut raw align).start = Layout.roundUp (raw.base + distanceSize) align - raw.base :=
  start_mapCells _ _

@[simp] theorem size_cut (raw : RawBlock) (align : Nat) : (cut raw align).raw.size = raw.size := by
  unfold RawBlock.size cut
  rw [storeDistance_eq, cells_mapCells, Cells.size_writeBytes]

theorem distanceSize_le_start_cut (raw : RawBlock) (h : 0 < align) :
    distanceSize ≤ (cut raw align).start := by
  have hle : raw.base + distanceSize ≤ Layout.roundUp (raw.base + distanceSize) align :=
    Layout.le_roundUp h
  rw [start_cut]
  omega

theorem start_cut_le (raw : RawBlock) (h : 0 < align) : (cut raw align).start ≤ align + 1 := by
  have hlt : Layout.roundUp (raw.base + distanceSize) align < raw.base + distanceSize + align :=
    Layout.roundUp_lt_add h
  have htwo : distanceSize = 2 := rfl
  rw [start_cut]
  omega

theorem address_cut (h : 0 < align) :
    (cut raw align).address = Layout.roundUp (raw.base + distanceSize) align := by
  have hle : raw.base + distanceSize ≤ Layout.roundUp (raw.base + distanceSize) align :=
    Layout.le_roundUp h
  unfold address
  rw [base_cut, start_cut]
  omega

/-- A raw block with room for the payload, the distance and the padding gives a placed block. -/
theorem placed_cut (valid : ValidAlign align) (hsize : raw.size = totalSize align size)
    (bounded : raw.base + raw.size ≤ 2 ^ Word.width) : (cut raw align).Placed align size := by
  have hroom := distanceSize_le_start_cut raw valid.pos
  have hnear := start_cut_le raw valid.pos
  have hgreatest : align ≤ 32768 := valid.2
  have htotal : raw.size = size + (align + 1) := hsize
  refine ⟨hroom, hnear, ?_, ?_, ?_, ?_⟩
  · rw [address_cut valid.pos]
    exact Layout.dvd_roundUp _ _
  · rw [size_cut]
    omega
  · rw [base_cut, size_cut]
    exact bounded
  · rw [start_cut] at hroom hnear ⊢
    apply distance_storeDistance hroom
    · show Layout.roundUp (raw.base + distanceSize) align - raw.base ≤ raw.size
      omega
    · omega

theorem peek_cut (h : 0 < align) (i : Nat) :
    (cut raw align).peek i = raw.cells.peek ((cut raw align).start + i) := by
  have hroom := distanceSize_le_start_cut raw h
  rw [start_cut] at hroom ⊢
  exact peek_storeDistance _ hroom i

/-- Cutting does not overflow where the raw block ends inside the address space. -/
theorem carve_eq_ok (valid : ValidAlign align) (h : raw.base + (align + 1) ≤ Word.greatest) :
    carve raw align = .ok (cut raw align) := by
  have hpos := valid.pos
  have htwo : distanceSize = 2 := rfl
  have hadd : Word.add raw.base distanceSize = .ok (raw.base + distanceSize) :=
    Word.add_eq_ok (by omega)
  have hround : Word.roundUp (raw.base + distanceSize) align =
      .ok (Layout.roundUp (raw.base + distanceSize) align) :=
    Word.roundUp_eq_ok valid.1 (by omega)
  have hle : raw.base + distanceSize ≤ Layout.roundUp (raw.base + distanceSize) align :=
    Layout.le_roundUp hpos
  have hsub : Word.sub (Layout.roundUp (raw.base + distanceSize) align) raw.base =
      .ok (Layout.roundUp (raw.base + distanceSize) align - raw.base) :=
    Word.sub_eq_ok (by omega)
  unfold carve
  rw [hadd]
  show (Word.roundUp (raw.base + distanceSize) align >>= _) = _
  rw [hround]
  show (Word.sub (Layout.roundUp (raw.base + distanceSize) align) raw.base >>= _) = _
  rw [hsub]
  rfl

end Cut

/-! ## Writing into a placed block -/

section Write

variable {b : Parcel} {align size : Nat}

/-- A block stays placed as long as its size and the distance in front of it are kept. -/
theorem Placed.mapCells (h : b.Placed align size) {f : Cells → Cells}
    (hsize : (f b.raw.cells).size = b.raw.cells.size)
    (hfront : ∀ i < b.start, (f b.raw.cells).peek i = b.raw.cells.peek i) :
    (b.mapCells f).Placed align size := by
  have hroom : 2 ≤ b.start := h.room
  refine ⟨?_, ?_, ?_, ?_, ?_, ?_⟩
  · rw [start_mapCells]
    exact h.room
  · rw [start_mapCells]
    exact h.near
  · unfold address
    rw [start_mapCells, base_mapCells]
    exact h.aligned
  · unfold RawBlock.size
    rw [start_mapCells, cells_mapCells, hsize]
    exact h.fits
  · unfold RawBlock.size
    rw [base_mapCells, cells_mapCells, hsize]
    exact h.bounded
  · unfold distance
    rw [start_mapCells, cells_mapCells, hfront _ (by omega), hfront _ (by omega)]
    exact h.marked

theorem Placed.overwrite (h : b.Placed align size) (offset count : Nat) (source : Nat → Cell) :
    (b.overwrite offset count source).Placed align size := by
  show (b.mapCells fun cells => cells.overwrite (b.start + offset) count source).Placed align size
  refine h.mapCells rfl fun i hi => ?_
  exact Cells.peek_overwrite_of_notMem _ (by omega)

theorem Placed.move (h : b.Placed align size) (source target count : Nat) :
    (b.move source target count).Placed align size := by
  show (b.mapCells fun cells =>
    cells.move (b.start + source) (b.start + target) count).Placed align size
  refine h.mapCells rfl fun i hi => ?_
  exact Cells.peek_overwrite_of_notMem _ (by omega)

theorem Placed.writeBytes (h : b.Placed align size) (offset : Nat) (bytes : List UInt8) :
    (b.writeBytes offset bytes).Placed align size := by
  show (b.mapCells fun cells => cells.writeBytes (b.start + offset) bytes).Placed align size
  refine h.mapCells rfl fun i hi => ?_
  rw [Cells.peek_writeBytes, if_neg (by omega)]

theorem Placed.copy (h : b.Placed align size) (source : Parcel) (count : Nat) :
    (b.copy source count).Placed align size := by
  show (b.mapCells fun cells =>
    cells.copy b.start source.raw.cells source.start count).Placed align size
  refine h.mapCells (Cells.size_copy _ _ _ _ _) fun i hi => ?_
  rw [Cells.peek_copy, if_neg (by omega)]

/-- A fill stays inside the payload, so the distance in front of it is kept. -/
theorem Placed.fill (h : b.Placed align size) (offset count : Nat) (value : UInt8) :
    (b.fill offset count value).Placed align size := by
  show (b.mapCells fun cells => cells.fill (b.start + offset) count value).Placed align size
  refine h.mapCells (Cells.size_fill _ _ _ _) fun i hi => ?_
  rw [Cells.peek_fill, if_neg (by omega)]

/-- A cell of the payload after a range of it was filled. -/
theorem peek_fill {offset count : Nat} (h : b.start + (offset + count) ≤ b.raw.size) (value : UInt8)
    (i : Nat) :
    (b.fill offset count value).peek i =
      if offset ≤ i ∧ i < offset + count then .byte value else b.peek i := by
  unfold peek fill
  unfold RawBlock.size at h
  simp only [cells_mapCells, start_mapCells]
  rw [Cells.peek_fill]
  by_cases hi : offset ≤ i ∧ i < offset + count
  · rw [if_pos (by omega), if_pos hi]
  · rw [if_neg (by omega), if_neg hi]

end Write

/-! ## Programs on blocks -/

section Programs

variable {align size : Nat}

/-- The request for a payload goes wrong before the heap is asked, or the heap refuses it. -/
def Refuses (heap : Heap) (align size : Nat) (heap' : Heap) : Prop :=
  (size = 0 ∨ Word.greatest < totalSize align size) ∧ heap' = heap ∨
    0 < size ∧ totalSize align size ≤ Word.greatest ∧
      heap.placement heap.history (totalSize align size) = none ∧
      heap' = heap.after [.refused (totalSize align size)]

theorem Refuses.placement_eq {heap heap' : Heap} (h : Refuses heap align size heap') :
    heap'.placement = heap.placement := by
  rcases h with ⟨_, rfl⟩ | ⟨_, _, _, rfl⟩ <;> rfl

theorem Refuses.unmoved {heap heap' : Heap} (h : Refuses heap align size heap') :
    heap.Unmoved heap' := by
  rcases h with ⟨_, hsame⟩ | ⟨_, _, _, hrefused⟩
  · exact .inl hsame
  · exact .inr ⟨_, hrefused⟩

/-- A placement that has a place for the block does not refuse it. -/
theorem Refuses.placement_eq_none {heap heap' : Heap} (h : Refuses heap align size heap')
    (hpos : 0 < size) (hsize : totalSize align size ≤ Word.greatest) :
    heap.placement heap.history (totalSize align size) = none := by
  rcases h with ⟨hzero | hlarge, _⟩ | ⟨_, _, hnone, _⟩
  · omega
  · omega
  · exact hnone

/-- A request that is not made leaves the heap as it is. -/
theorem Refuses.eq_self {heap heap' : Heap} (h : Refuses heap align size heap')
    (hunasked : size = 0 ∨ Word.greatest < totalSize align size) : heap' = heap := by
  rcases h with ⟨_, rfl⟩ | ⟨hpos, hword, _, _⟩
  · rfl
  · omega

/-- A request that is made and refused is the one call to the heap. -/
theorem Refuses.eq_after {heap heap' : Heap} (h : Refuses heap align size heap') (hpos : 0 < size)
    (hword : totalSize align size ≤ Word.greatest) :
    heap' = heap.after [.refused (totalSize align size)] := by
  rcases h with ⟨hunasked, _⟩ | ⟨_, _, _, rfl⟩
  · omega
  · rfl

/-- A payload whose size is no word cannot be asked for. -/
theorem refuses_of_lt (heap : Heap) (align : Nat) (h : Word.greatest < size) :
    Refuses heap align size heap :=
  .inl ⟨.inr (Nat.lt_of_lt_of_le h (Nat.le_add_right _ _)), rfl⟩

/-- The heap grants a raw block for a payload, which is then filled with one byte and cut. -/
def Grants (heap : Heap) (align size : Nat) (fill : UInt8) (b : Parcel) (base : Nat) : Prop :=
  0 < size ∧ totalSize align size ≤ Word.greatest ∧
    heap.placement heap.history (totalSize align size) = some base ∧
    b = cut ⟨base, Cells.filled (totalSize align size) fill⟩ align

/-- A granted block is placed, and every byte of its payload is the one it was filled with. -/
theorem Grants.placed {heap : Heap} {fill : UInt8} {b : Parcel} {base : Nat}
    (h : Grants heap align size fill b base) (valid : ValidAlign align)
    (bounds : heap.placement.InBounds) :
    b.Placed align size ∧ b.raw.base = base ∧ b.raw.size = totalSize align size ∧
      ∀ i < size, b.peek i = .byte fill := by
  obtain ⟨_, _, hbase, rfl⟩ := h
  have hplaced : (cut ⟨base, Cells.filled (totalSize align size) fill⟩ align).Placed align size :=
    placed_cut valid rfl (bounds _ _ _ hbase)
  refine ⟨hplaced, base_cut _ _, size_cut _ _, fun i hi => ?_⟩
  have hfits := hplaced.fits
  rw [size_cut] at hfits
  rw [peek_cut valid.pos]
  apply Cells.peek_filled
  show _ < totalSize align size
  have : (RawBlock.mk base (Cells.filled (totalSize align size) fill)).size =
      totalSize align size := rfl
  omega

/-- An allocation only depends on where its own raw block is placed: that block, if it is asked for,
has to end inside the address space. -/
theorem allocate_ends_of_room (zeroed : Bool) (size : Nat) (host : Host) (valid : ValidAlign align)
    (room : 0 < size → totalSize align size ≤ Word.greatest → ∀ base,
      host.heap.placement host.heap.history (totalSize align size) = some base →
      base + totalSize align size ≤ 2 ^ Word.width) :
    (allocate zeroed align size).Ends host
      (fun b host' => ∃ base,
        Grants host.heap align size (if zeroed then 0 else host.heap.fresh) b base ∧
        host'.heap = host.heap.after [.granted (totalSize align size) base])
      (fun e host' => e = .error .refused ∧ Refuses host.heap align size host'.heap) := by
  have hpos := valid.pos
  have htwo : distanceSize = 2 := rfl
  have hgreatest : align ≤ 32768 := valid.2
  have hword : Word.greatest = 2 ^ 64 - 1 := rfl
  have hheader : distanceSize + (align - 1) = align + 1 := by omega
  unfold allocate
  apply Host.trace_ends
  intro log
  rw [if_neg (not_not.mpr valid)]
  by_cases hzero : size = 0
  · rw [if_pos hzero]
    apply Prog.Ends.bind_error rfl
    exact ⟨rfl, .inl ⟨.inl hzero, rfl⟩⟩
  rw [if_neg hzero]
  apply Prog.Ends.bind_ok (Prog.lift_ok (Word.sub_eq_ok hpos))
  apply Prog.Ends.bind_ok (Prog.lift_ok (Word.add_eq_ok (by omega)))
  rw [hheader]
  cases htotal : Word.add? size (align + 1) with
  | none =>
    have := Word.add?_eq_none_iff.mp htotal
    exact Prog.Ends.fail ⟨rfl, .inl ⟨.inr this, rfl⟩⟩
  | some total =>
    obtain ⟨hle, rfl⟩ := Word.add?_eq_some_iff.mp htotal
    apply Host.trace_ends
    intro log
    cases hbase : host.heap.placement host.heap.history (totalSize align size) with
    | none =>
      apply Prog.Ends.bind_ok (Host.request_of_eq_none hbase _)
      exact Prog.Ends.fail ⟨rfl, .inr ⟨by omega, hle, hbase, rfl⟩⟩
    | some base =>
      -- The block ends inside the address space, so that no address of the header or the payload wraps.
      have hbound : base + (size + (align + 1)) ≤ 2 ^ 64 := room (by omega) hle base hbase
      have hcarve : ∀ cells, carve ⟨base, cells⟩ align = .ok (cut ⟨base, cells⟩ align) :=
        fun cells => carve_eq_ok valid (by show base + (align + 1) ≤ _; omega)
      apply Prog.Ends.bind_ok (Host.request_of_eq_some hbase _)
      cases zeroed with
      | false =>
        simp only [Bool.false_eq_true, if_false]
        apply Prog.Ends.bind_ok (Prog.lift_ok (hcarve _))
        apply Host.trace_ends
        intro log
        exact Prog.Ends.pure ⟨base, ⟨by omega, hle, hbase, rfl⟩, rfl⟩
      | true =>
        have hfill : (Cells.filled (totalSize align size) host.heap.fresh).fill 0
            (size + (align + 1)) 0 = Cells.filled (totalSize align size) 0 :=
          Cells.fill_filled _ _ _
        simp only [if_true, hfill]
        apply Prog.Ends.bind_ok (Prog.lift_ok (hcarve _))
        apply Host.trace_ends
        intro log
        exact Prog.Ends.pure ⟨base, ⟨by omega, hle, hbase, rfl⟩, rfl⟩

/-- **Allocation.** With a supported alignment it answers a block or an error, and never faults. -/
theorem allocate_ends (zeroed : Bool) (size : Nat) (host : Host) (valid : ValidAlign align)
    (bounds : host.heap.placement.InBounds) :
    (allocate zeroed align size).Ends host
      (fun b host' => ∃ base,
        Grants host.heap align size (if zeroed then 0 else host.heap.fresh) b base ∧
        host'.heap = host.heap.after [.granted (totalSize align size) base])
      (fun e host' => e = .error .refused ∧ Refuses host.heap align size host'.heap) :=
  allocate_ends_of_room zeroed size host valid fun _ _ => bounds _ _

/-- With any other alignment the assertion of the allocator stops the allocation. -/
theorem allocate_of_not_valid (zeroed : Bool) (size : Nat) (host : Host) (h : ¬ ValidAlign align) :
    (allocate zeroed align size).Ends host (fun _ _ => False)
      fun e host' => e = .fault (.blockAlignment align greatestAlign) ∧ host'.heap = host.heap := by
  unfold allocate
  apply Host.trace_ends
  intro log
  rw [if_pos h]
  exact Prog.Ends.bind_error rfl ⟨rfl, rfl⟩

/-- **Giving a placed block back** frees its raw block. -/
theorem release_eq {ε : Type} {b : Parcel} (h : b.Placed align size) (host : Host) :
    b.release (ε := ε) host =
      .ok () { host with heap := host.heap.after [.freed b.raw.base] } := by
  have haddress : b.address - b.distance = b.raw.base := by
    rw [h.marked]
    exact Nat.add_sub_cancel _ _
  unfold release
  rw [haddress]
  rfl

/-- **Resizing.** A block that suffices is kept; a larger one is allocated first, then filled, and
only then is the old one given back. -/
theorem resize_ends {old : Parcel} {oldAlign held : Nat} (oldSize newSize : Nat) (host : Host)
    (h : old.Placed oldAlign held) (valid : ValidAlign align) (bounds : host.heap.placement.InBounds) :
    (resize (some old) align oldSize newSize).Ends host
      (fun r host' =>
        newSize = 0 ∧ r = none ∧ host'.heap = host.heap.after [.freed old.raw.base] ∨
        0 < newSize ∧ newSize ≤ oldSize ∧ r = some old ∧ host'.heap = host.heap ∨
        oldSize < newSize ∧ ∃ base new, Grants host.heap align newSize host.heap.fresh new base ∧
          r = some (new.copy old oldSize) ∧ host'.heap = host.heap.after
            [.freed old.raw.base, .granted (totalSize align newSize) base])
      (fun e host' => e = .error .refused ∧ 0 < newSize ∧ oldSize < newSize ∧
        Refuses host.heap align newSize host'.heap) := by
  unfold resize
  apply Host.trace_ends
  intro log
  by_cases hzero : newSize = 0
  · simp only [if_pos hzero]
    apply Prog.Ends.bind_ok (release_eq h _)
    exact Prog.Ends.pure (.inl ⟨hzero, rfl, rfl⟩)
  simp only [if_neg hzero]
  by_cases hle : newSize ≤ oldSize
  · rw [if_pos hle]
    exact Prog.Ends.pure (.inr (.inl ⟨by omega, hle, rfl, rfl⟩))
  rw [if_neg hle]
  apply (allocate_ends false newSize ⟨host.heap, log⟩ valid bounds).bind
  · rintro new host' ⟨base, hgrant, hheap⟩
    apply Prog.Ends.bind_ok (release_eq h _)
    refine Prog.Ends.pure (.inr (.inr ⟨by omega, base, new, hgrant, rfl, ?_⟩))
    show host'.heap.after _ = _
    rw [hheap]
    rfl
  · rintro e host' ⟨he, hrefuse⟩
    exact ⟨he, by omega, by omega, hrefuse⟩

/-- Resizing nothing allocates, unless nothing is asked for. -/
theorem resize_none_ends (oldSize newSize : Nat) (host : Host) (valid : ValidAlign align)
    (bounds : host.heap.placement.InBounds) :
    (resize none align oldSize newSize).Ends host
      (fun r host' =>
        newSize = 0 ∧ r = none ∧ host'.heap = host.heap ∨
        ∃ base new, Grants host.heap align newSize host.heap.fresh new base ∧
          r = some new ∧ host'.heap = host.heap.after [.granted (totalSize align newSize) base])
      (fun e host' => e = .error .refused ∧ 0 < newSize ∧
        Refuses host.heap align newSize host'.heap) := by
  unfold resize
  apply Host.trace_ends
  intro log
  by_cases hzero : newSize = 0
  · simp only [if_pos hzero]
    exact Prog.Ends.pure (.inl ⟨hzero, rfl, rfl⟩)
  simp only [if_neg hzero]
  apply (allocate_ends false newSize ⟨host.heap, log⟩ valid bounds).bind
  · rintro new host' ⟨base, hgrant, hheap⟩
    exact Prog.Ends.pure (.inr ⟨base, new, hgrant, rfl, hheap⟩)
  · rintro e host' ⟨he, hrefuse⟩
    exact ⟨he, by omega, hrefuse⟩

/-- A growth with any other alignment stops before the old block is touched. -/
theorem resize_of_not_valid (block : Option Parcel) {oldSize newSize : Nat} (host : Host)
    (h : ¬ ValidAlign align) (hlt : oldSize < newSize) :
    (resize block align oldSize newSize).Ends host (fun _ _ => False)
      fun e host' => e = .fault (.blockAlignment align greatestAlign) ∧ host'.heap = host.heap := by
  have hzero : newSize ≠ 0 := by omega
  unfold resize
  apply Host.trace_ends
  intro log
  cases block with
  | none =>
    simp only [if_neg hzero]
    exact (allocate_of_not_valid false newSize _ h).bind (fun _ _ hfalse => hfalse.elim) fun _ _ he => he
  | some old =>
    simp only [if_neg hzero, if_neg (Nat.not_le.mpr hlt)]
    exact (allocate_of_not_valid false newSize _ h).bind (fun _ _ hfalse => hfalse.elim) fun _ _ he => he

end Programs

end Parcel

end AlignedSlots
