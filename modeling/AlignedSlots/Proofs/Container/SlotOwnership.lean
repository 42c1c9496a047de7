import Mathlib
import AlignedSlots.Proofs.Container.SlotGrowth
import AlignedSlots.Proofs.Memory.BlockAccount

/-!
# The block of slots

Slots own one raw block while there are any, and none otherwise.  Each way in which slots change hands
with the heap is one turnover of that block: a growth that is met or denied, cleared slots, and the
release, which gives the block back.
-/

namespace AlignedSlots

namespace Slots

variable {s s' : Slots} {requested : Nat} {heap heap' : Heap}

theorem Ready.isSome_base_iff (h : s.Ready) : s.base.isSome ↔ s.capacity ≠ 0 := by
  unfold base
  rw [Option.isSome_map]
  cases hb : s.block with
  | none => exact iff_of_false nofun (not_not.mpr (h.unallocated hb))
  | some b => exact iff_of_true rfl (Nat.pos_iff_ne_zero.mp (h.placed b hb).1)

theorem Ready.base_eq_none (h : s.Ready) (hzero : s.capacity = 0) : s.base = none := by
  rw [← Option.not_isSome_iff_eq_none, h.isSome_base_iff]
  exact not_not.mpr hzero

theorem base_regrown (s : Slots) (new : Parcel) (capacity : Nat) :
    (s.regrown new capacity).base = some new.raw.base := by
  rcases s with ⟨block | old, _, _, _⟩
  · rfl
  · exact congrArg some (Parcel.base_mapCells _ _)

theorem base_of_grants {align size base : Nat} {fill : UInt8} {b : Parcel}
    (h : Parcel.Grants heap align size fill b base) : b.raw.base = base := by
  obtain ⟨_, _, _, rfl⟩ := h
  exact Parcel.base_cut _ _

/-! ## Making slots -/

/-- Nothing is allocated for no slots. -/
theorem cleared_zero (stride align : Nat) (host : Host) :
    cleared stride align 0 host = .ok ⟨none, 0, stride, align⟩ host := by
  have hmul : Word.mul? 0 stride = some 0 :=
    Word.mul?_eq_some_iff.mpr ⟨by rw [Nat.zero_mul]; exact Nat.zero_le _, Nat.zero_mul stride⟩
  unfold cleared
  simp only [hmul, if_true]
  rfl

/-- **Cleared slots** are the first block that their owner has.  Where they cannot be made, none is
left out. -/
theorem cleared_turnover (host : Host) {stride align : Nat} (capacity : Nat) (hstride : 0 < stride)
    (bounds : host.heap.placement.InBounds) :
    (cleared stride align capacity).Ends host
      (fun s host' => s.Ready ∧ s.capacity = capacity ∧ s.stride = stride ∧
        Turnover host.heap none s.base host'.heap)
      (fun e host' => Turnover host.heap none none host'.heap ∧
        (ValidAlign align → e = .error .refused)) := by
  rcases Nat.eq_zero_or_pos capacity with rfl | hpos
  · refine Prog.Ends.of_ok (cleared_zero stride align host) ⟨?_, rfl, rfl, .kept none⟩
    exact ⟨fun hpos => absurd hpos (Nat.lt_irrefl 0), hstride, fun _ => rfl, nofun⟩
  by_cases hvalid : ValidAlign align
  · apply (cleared_ends host hvalid hstride hpos bounds).mono
    · rintro _ host' ⟨base, b, hgrant, rfl, hheap⟩
      refine ⟨ready_of_grants hgrant hvalid hstride bounds, rfl, rfl, ?_⟩
      have hbase : (Slots.mk (some b) capacity stride align).base = some base :=
        congrArg some (base_of_grants hgrant)
      rw [hbase, hheap]
      exact .first _ _
    · rintro e host' ⟨rfl, hrefuses⟩
      exact ⟨.of_refuses hrefuses none, fun _ => rfl⟩
  · apply (cleared_of_not_valid host hvalid (Nat.mul_pos hpos hstride)).mono
    · exact fun _ _ hfalse => hfalse.elim
    · exact fun e host' ⟨hheap, _⟩ => ⟨.of_eq rfl hheap, fun valid => absurd valid hvalid⟩

/-! ## Growing and giving back -/

/-- A growth that is met hands over a block at most. -/
theorem Reserved.turnover (h : s.Reserved requested heap s' heap') :
    Turnover heap s.base s'.base heap' := by
  cases h with
  | enough _ => exact .kept _
  | grown base new _ _ hgrant =>
    rw [base_regrown, base_of_grants hgrant]
    rcases s with ⟨block | old, _, _, _⟩
    · exact .first _ _
    · exact .moved _ _ _

/-- A growth that is denied takes nothing back. -/
theorem Denied.turnover {e : Failure Refusal} (h : s.Denied requested heap heap' e) :
    Turnover heap s.base s.base heap' := by
  cases h with
  | refused _ hrefuse => exact .of_refuses hrefuse _
  | oversized _ _ => exact .kept _
  | misaligned _ _ => exact .kept _

/-- **Releasing** gives the block back. -/
theorem release_ends {ε : Type} (h : s.Ready) (host : Host) :
    (release (ε := ε)).Ends (s, host)
      (fun _ s' => s'.2.heap = host.heap.after (s.base.toList.map HeapEvent.freed))
      (fun _ _ => False) := by
  unfold release
  apply Prog.Ends.bind_ok (Hosted.object_eq s host)
  cases hb : s.block with
  | none =>
    apply Prog.Ends.of_ok (Hosted.update_eq _ _ _)
    show host.heap = host.heap.after ((s.block.map _).toList.map _)
    rw [hb]
    rfl
  | some b =>
    have hrelease := Parcel.release_eq (ε := ε) (h.placed b hb).2 host
    have hrun : (Hosted.onHost b.release : Hosted ε Slots Unit) (s, host) =
        .ok () (s, { host with heap := host.heap.after [.freed b.raw.base] }) := by
      simp only [Hosted.onHost, hrelease]
    apply Prog.Ends.bind_ok hrun
    apply Prog.Ends.of_ok (Hosted.update_eq _ _ _)
    show host.heap.after _ = host.heap.after ((s.block.map _).toList.map _)
    rw [hb]
    rfl

end Slots

end AlignedSlots
