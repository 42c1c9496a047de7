import Mathlib
import AlignedSlots.Proofs.Memory.Placing

/-!
# Carving a payload, byte for byte

Where exactly a payload goes: `PayloadStart base align start` says that `start` is the least distance
from the base that leaves two bytes in front of the payload and aligns it.  `Parcel.Carved` collects
what follows for the block: what its raw block holds at every offset, and that the two bytes in front
of the payload lead back to the base.

`Parcel.allocate_exact` is the whole law of an allocation, at both ends of the range: which request is
made, if any, and which block comes out of every base that the heap may answer.
-/

namespace AlignedSlots

/-- The least distance from a base that leaves room for the header and aligns the payload. -/
def PayloadStart (base align start : Nat) : Prop :=
  IsLeast {offset | distanceSize ≤ offset ∧ align ∣ base + offset} start

namespace PayloadStart

variable {base align start : Nat}

theorem distanceSize_le (h : PayloadStart base align start) : distanceSize ≤ start := h.1.1

/-- Among `align` offsets in a row, one aligns the payload. -/
theorem le (h : PayloadStart base align start) (pos : 0 < align) : start ≤ align + 1 := by
  have hle : base + distanceSize ≤ Layout.roundUp (base + distanceSize) align := Layout.le_roundUp pos
  have hlt : Layout.roundUp (base + distanceSize) align < base + distanceSize + align :=
    Layout.roundUp_lt_add pos
  have htwo : distanceSize = 2 := rfl
  have hleast : start ≤ Layout.roundUp (base + distanceSize) align - base := by
    refine h.2 ⟨by omega, ?_⟩
    rw [Nat.add_sub_of_le (by omega)]
    exact Layout.dvd_roundUp _ _
  omega

/-- The header has room for the distance. -/
theorem lt_two_pow (h : PayloadStart base align start) (valid : ValidAlign align) :
    start < 2 ^ 16 := by
  have hle := h.le valid.pos
  have hgreatest : align ≤ 32768 := valid.2
  omega

end PayloadStart

namespace Parcel

variable {raw : RawBlock} {align size : Nat}

/-- A payload is cut where it should be. -/
theorem payloadStart_cut (raw : RawBlock) (pos : 0 < align) :
    PayloadStart raw.base align (cut raw align).start := by
  have haddress : raw.base + (cut raw align).start = Layout.roundUp (raw.base + distanceSize) align := by
    rw [← address_cut pos]
    unfold address
    rw [base_cut]
  refine ⟨⟨distanceSize_le_start_cut raw pos, ?_⟩, ?_⟩
  · rw [haddress]
    exact Layout.dvd_roundUp _ _
  · rintro offset ⟨hroom, hdvd⟩
    have hle : Layout.roundUp (raw.base + distanceSize) align ≤ raw.base + offset :=
      Layout.roundUp_le_of_dvd pos (Nat.add_le_add_left hroom _) hdvd
    omega

/-- A block whose payload starts `start` bytes into a raw block.  Of the bytes of the raw block, the
two in front of the payload hold that distance, low byte first, and the others what they held. -/
structure Carved (raw : RawBlock) (align size start : Nat) (b : Parcel) : Prop where
  base_eq : b.raw.base = raw.base
  size_eq : b.raw.size = raw.size
  start_eq : b.start = start
  distance_eq : b.distance = start
  address_eq : b.address = raw.base + start
  header_inside : raw.base ≤ b.address - distanceSize
  payload_inside : b.address + size ≤ raw.base + raw.size
  low : b.raw.cells.peek (start - 2) = .byte (UInt8.ofNat start)
  high : b.raw.cells.peek (start - 1) = .byte (UInt8.ofNat (start / 256))
  others : ∀ i, i ≠ start - 2 → i ≠ start - 1 → b.raw.cells.peek i = raw.cells.peek i
  release_eq : ∀ host : Host, b.release (ε := Refusal) host =
    .ok () { host with heap := host.heap.after [.freed raw.base] }

/-- The raw block of a cut block, byte for byte. -/
theorem peek_raw_cut (raw : RawBlock) (align i : Nat) :
    (cut raw align).raw.cells.peek i =
      if (cut raw align).start - 2 ≤ i ∧ i < (cut raw align).start - 2 + 2 ∧ i < raw.size then
        .byte ((littleEndian (BitVec.ofNat 16 (cut raw align).start)).getD
          (i - ((cut raw align).start - 2)) 0)
      else raw.cells.peek i := by
  have hcells : (cut raw align).raw.cells = raw.cells.writeBytes ((cut raw align).start - 2)
      (littleEndian (BitVec.ofNat 16 (cut raw align).start)) := by
    rw [start_cut]
    unfold cut
    rw [storeDistance_eq, cells_mapCells]
    rfl
  rw [hcells, Cells.peek_writeBytes, length_littleEndian]
  rfl

/-- The bytes of a number of two bytes. -/
theorem littleEndian_two {n : Nat} (small : n < 2 ^ 16) :
    littleEndian (BitVec.ofNat 16 n) = [UInt8.ofNat n, UInt8.ofNat (n / 256)] := by
  have hn : (BitVec.ofNat 16 n).toNat = n := by
    rw [BitVec.toNat_ofNat, Nat.mod_eq_of_lt small]
  have hlow : byteAt (BitVec.ofNat 16 n) 0 = UInt8.ofNat n := by
    unfold byteAt
    rw [hn, Nat.mul_zero, Nat.shiftRight_zero]
  have hhigh : byteAt (BitVec.ofNat 16 n) 1 = UInt8.ofNat (n / 256) := by
    unfold byteAt
    rw [hn, Nat.shiftRight_eq_div_pow]
  show [byteAt (BitVec.ofNat 16 n) 0, byteAt (BitVec.ofNat 16 n) 1] = _
  rw [hlow, hhigh]

/-- **A raw block of any content** with room for the payload is cut exactly so. -/
theorem carved_cut (valid : ValidAlign align) (hsize : raw.size = totalSize align size)
    (bounded : raw.base + raw.size ≤ 2 ^ Word.width) :
    Carved raw align size (cut raw align).start (cut raw align) := by
  have hplaced : (cut raw align).Placed align size := placed_cut valid hsize bounded
  have hstart := payloadStart_cut raw valid.pos
  have hroom : 2 ≤ (cut raw align).start := hstart.distanceSize_le
  have hnear := hstart.le valid.pos
  have hbytes := littleEndian_two (hstart.lt_two_pow valid)
  have htotal : raw.size = size + (align + 1) := hsize
  have haddress : (cut raw align).address = raw.base + (cut raw align).start := by
    unfold address
    rw [base_cut]
  have htwo : distanceSize = 2 := rfl
  refine ⟨base_cut _ _, size_cut _ _, rfl, hplaced.marked, haddress, ?_, ?_, ?_, ?_, ?_, ?_⟩
  · omega
  · omega
  · rw [peek_raw_cut, hbytes, if_pos (by omega), Nat.sub_self]
    rfl
  · have hone : (cut raw align).start - 1 - ((cut raw align).start - 2) = 1 := by omega
    rw [peek_raw_cut, hbytes, if_pos (by omega), hone]
    rfl
  · intro i hlow hhigh
    rw [peek_raw_cut, if_neg (by omega)]
  · intro host
    rw [Parcel.release_eq hplaced, base_cut]

/-- Where a payload starts does not depend on what its raw block holds. -/
theorem carved_cells (valid : ValidAlign align) {base start : Nat} {cells : Cells}
    (hstart : PayloadStart base align start) (hsize : cells.size = totalSize align size)
    (bounded : base + totalSize align size ≤ 2 ^ Word.width) :
    Carved ⟨base, cells⟩ align size start (cut ⟨base, cells⟩ align) := by
  have hcut : PayloadStart base align (cut ⟨base, cells⟩ align).start := payloadStart_cut _ valid.pos
  rw [hstart.unique hcut]
  refine carved_cut valid hsize ?_
  show base + cells.size ≤ _
  rw [hsize]
  exact bounded

/-! ## The one request of an allocation -/

section Requests

variable {host : Host} {base : Nat}

/-- Nothing to allocate, or more than a request can name: the heap is not asked. -/
theorem allocate_unasked (valid : ValidAlign align)
    (h : size = 0 ∨ Word.greatest < totalSize align size) (zeroed : Bool) (host : Host) :
    ∃ log, allocate zeroed align size host = .error (.error .refused) ⟨host.heap, log⟩ := by
  have hends := allocate_ends_of_room zeroed size host valid (by omega)
  rcases hends.run_eq with ⟨_, _, _, _, ⟨hpos, hword, _⟩, _⟩ | ⟨_, ⟨heap', log⟩, heq, rfl, hrefuses⟩
  · omega
  · obtain rfl : heap' = host.heap := hrefuses.eq_self h
    exact ⟨log, heq⟩

/-- The heap is asked once, and has no block. -/
theorem allocate_refused (valid : ValidAlign align) (hpos : 0 < size)
    (hword : totalSize align size ≤ Word.greatest)
    (hnone : host.heap.placement host.heap.history (totalSize align size) = none) (zeroed : Bool) :
    ∃ log, allocate zeroed align size host =
      .error (.error .refused) ⟨host.heap.after [.refused (totalSize align size)], log⟩ := by
  have hends := allocate_ends_of_room zeroed size host valid fun _ _ base hbase => by
    rw [hnone] at hbase
    cases hbase
  rcases hends.run_eq with ⟨_, _, _, _, ⟨_, _, hbase, _⟩, _⟩ | ⟨_, ⟨heap', log⟩, heq, rfl, hrefuses⟩
  · rw [hnone] at hbase
    cases hbase
  · obtain rfl : heap' = host.heap.after _ := hrefuses.eq_after hpos hword
    exact ⟨log, heq⟩

/-- The heap is asked once, and the block that it has is cut. -/
theorem allocate_granted (valid : ValidAlign align) (hpos : 0 < size)
    (hword : totalSize align size ≤ Word.greatest)
    (hbase : host.heap.placement host.heap.history (totalSize align size) = some base)
    (bounded : base + totalSize align size ≤ 2 ^ Word.width) (zeroed : Bool) :
    ∃ log, allocate zeroed align size host =
      .ok (cut ⟨base, Cells.filled (totalSize align size) (if zeroed then 0 else host.heap.fresh)⟩
        align) ⟨host.heap.after [.granted (totalSize align size) base], log⟩ := by
  have hends := allocate_ends_of_room zeroed size host valid fun _ _ base' hbase' => by
    obtain rfl := Option.some.inj (hbase.symm.trans hbase')
    exact bounded
  rcases hends.run_eq with ⟨_, ⟨heap', log⟩, heq, base', ⟨_, _, hbase', rfl⟩, hheap⟩ |
    ⟨_, _, _, _, hrefuses⟩
  · obtain rfl := Option.some.inj (hbase.symm.trans hbase')
    obtain rfl : heap' = host.heap.after _ := hheap
    exact ⟨log, heq⟩
  · rw [hrefuses.placement_eq_none hpos hword] at hbase
    cases hbase

end Requests

/-- The request as a sum from left to right. -/
theorem totalSize_eq (align size : Nat) : totalSize align size = size + align + 1 :=
  (Nat.add_assoc _ _ _).symm

/-- **Allocation, exactly.** For an alignment that can be asked for, every size and every base: an
empty payload, and one whose raw block would be no word, is refused without a request.  Any other one
makes one request, of `size + align + 1` bytes, and a granted block is carved at the payload start of
its base, cleared before or not.  No sum on the way overflows: that would be a fault. -/
theorem allocate_exact (valid : ValidAlign align) (size : Nat) (host : Host) :
    (size = 0 ∨ 2 ^ 64 - 1 < size + align + 1 → ∀ zeroed, ∃ log,
      allocate zeroed align size host = .error (.error .refused) ⟨host.heap, log⟩) ∧
    (0 < size → size + align + 1 ≤ 2 ^ 64 - 1 →
      (host.heap.placement host.heap.history (size + align + 1) = none → ∀ zeroed, ∃ log,
        allocate zeroed align size host =
          .error (.error .refused) ⟨host.heap.after [.refused (size + align + 1)], log⟩) ∧
      ∀ base, host.heap.placement host.heap.history (size + align + 1) = some base →
        base + size + align + 1 ≤ 2 ^ 64 →
        ∃ start, PayloadStart base align start ∧
          distanceSize ≤ start ∧ start ≤ align + 1 ∧ start < 2 ^ 16 ∧
          (∀ cells : Cells, cells.size = size + align + 1 → ∃ b,
            carve ⟨base, cells⟩ align = .ok b ∧ Carved ⟨base, cells⟩ align size start b) ∧
          ∀ zeroed, ∃ b log,
            allocate zeroed align size host =
              .ok b ⟨host.heap.after [.granted (size + align + 1) base], log⟩ ∧
            Carved ⟨base, Cells.filled (size + align + 1) (if zeroed then 0 else host.heap.fresh)⟩
              align size start b) := by
  have hgreatest : Word.greatest = 2 ^ 64 - 1 := rfl
  have hwidth : 2 ^ Word.width = 2 ^ 64 := rfl
  have htotal := totalSize_eq align size
  rw [← htotal]
  refine ⟨fun hunasked zeroed => allocate_unasked valid hunasked zeroed host,
    fun hpos hword => ⟨allocate_refused valid hpos hword, fun base hbase hend => ?_⟩⟩
  have hbounded : base + totalSize align size ≤ 2 ^ Word.width := by omega
  have hstart : PayloadStart base align (cut ⟨base, default⟩ align).start :=
    payloadStart_cut ⟨base, default⟩ valid.pos
  refine ⟨_, hstart, hstart.distanceSize_le, hstart.le valid.pos, hstart.lt_two_pow valid,
    fun cells hsize => ?_, fun zeroed => ?_⟩
  · have hcarve : carve ⟨base, cells⟩ align = .ok (cut ⟨base, cells⟩ align) :=
      carve_eq_ok valid (by show base + (align + 1) ≤ _; omega)
    exact ⟨_, hcarve, carved_cells valid hstart hsize hbounded⟩
  · obtain ⟨log, hallocate⟩ := allocate_granted valid hpos hword hbase hbounded zeroed
    exact ⟨_, log, hallocate, carved_cells valid hstart rfl hbounded⟩

/-- One byte past a multiple of the greatest alignment, all of the padding is in front of the payload,
and the distance needs its second byte. -/
theorem allocate_exact_farthest :
    ValidAlign 32768 ∧ ∃ b log,
      allocate true 32768 1 ⟨.ofPlacement (fun _ _ => some 32767) 0, {}⟩ =
        .ok b ⟨(Heap.ofPlacement (fun _ _ => some 32767) 0).after [.granted 32770 32767], log⟩ ∧
      b.address = 65536 ∧ b.distance = 32769 := by
  have valid : ValidAlign 32768 := ⟨⟨15, rfl⟩, by decide⟩
  obtain ⟨start, hstart, _, _, _, _, hallocate⟩ :=
    ((allocate_exact valid 1 ⟨.ofPlacement (fun _ _ => some 32767) 0, {}⟩).2 (by decide)
      (by decide)).2 32767 rfl (by decide)
  have hlast : PayloadStart 32767 32768 32769 := by
    refine ⟨⟨by decide, by decide⟩, ?_⟩
    rintro offset ⟨hroom, hdvd⟩
    have htwo : distanceSize = 2 := rfl
    omega
  obtain rfl := hstart.unique hlast
  obtain ⟨b, log, heq, hcarved⟩ := hallocate true
  exact ⟨valid, b, log, heq, hcarved.address_eq, hcarved.distance_eq⟩

end Parcel

end AlignedSlots
