import Mathlib
import AlignedSlots.Proofs.Container.SlotStorage

/-!
# Making and growing slots

`Slots.cleared_ends` and `Slots.reserve_ends` say exactly how slots are made and how they grow, with the
calls to the heap.  `Slots.Reserved` is how a request for slots is met and `Slots.Denied` how it goes
wrong: a growth with an alignment that is not supported stops at the assertion of the allocator, so ready
slots have a supported alignment as soon as there are any.
-/

namespace AlignedSlots

theorem ceil_half (m : Nat) : m ⌈/⌉ 2 = (m + 1) / 2 := Nat.ceilDiv_eq_add_pred_div m 2

namespace Slots

variable {s : Slots} {stride align capacity requested : Nat}

/-- The capacity that a request for more slots leads to: half as many again, rounded up. -/
def grown (requested : Nat) : Nat := requested + (requested / 2 + requested % 2)

theorem grown_eq (requested : Nat) : grown requested = (3 * requested + 1) / 2 := by
  unfold grown
  omega

theorem grown_eq_ceilDiv (requested : Nat) : grown requested = (3 * requested) ⌈/⌉ 2 := by
  rw [grown_eq, ceil_half]

/-- The growth policy over the naturals: a request is granted where the size in bytes fits. -/
theorem grownCapacity_eq {width : Nat} (current elementSize : Nat)
    (h : requested ≤ Unsigned.greatest width) :
    grownCapacity width current requested elementSize =
      if requested ≤ current then .ok current
      else if grown requested * max elementSize 1 ≤ Unsigned.greatest width
        then .ok (grown requested) else .error (.error .refused) := by
  have hpos : 0 < max elementSize 1 := by omega
  have hhalf : Unsigned.add width (requested / 2) (requested % 2) =
      .ok (requested / 2 + requested % 2) := if_pos (by omega)
  have hdiv : Unsigned.div (Unsigned.greatest width) (max elementSize 1) =
      .ok (Unsigned.greatest width / max elementSize 1) := if_neg (by omega)
  have hmost : Unsigned.greatest width / max elementSize 1 < grown requested ↔
      Unsigned.greatest width < grown requested * max elementSize 1 := Nat.div_lt_iff_lt_mul hpos
  have hmul : grown requested ≤ grown requested * max elementSize 1 :=
    Nat.le_mul_of_pos_right _ hpos
  unfold grownCapacity
  by_cases hkeep : requested ≤ current
  · rw [if_pos hkeep, if_pos hkeep]
  rw [if_neg hkeep, if_neg hkeep, hhalf]
  by_cases hsum : grown requested ≤ Unsigned.greatest width
  · have hadd : Unsigned.add? width requested (requested / 2 + requested % 2) =
        some (grown requested) := if_pos hsum
    rw [lifted_bind, hadd]
    show (liftM (Unsigned.div (Unsigned.greatest width) (max elementSize 1)) >>= _) = _
    rw [hdiv, lifted_bind]
    show (if Unsigned.greatest width / max elementSize 1 < grown requested then _ else _) = _
    by_cases hfit : grown requested * max elementSize 1 ≤ Unsigned.greatest width
    · rw [if_neg (by omega), if_pos hfit]
      rfl
    · rw [if_pos (by omega), if_neg hfit]
      rfl
  · have hadd : Unsigned.add? width requested (requested / 2 + requested % 2) = none := if_neg hsum
    rw [lifted_bind, hadd, if_neg (by omega)]
    rfl

theorem le_grown (requested : Nat) : requested ≤ grown requested := Nat.le_add_right _ _

/-- The distance between slots fits in a word for every size that a type can have. -/
theorem strideOf_eq_ok {size : Nat} (hsize : size < 2 ^ 63) (valid : ValidAlign align) :
    strideOf size align = .ok (Layout.roundUp (max size 1) align) := by
  have halign := valid.2
  have hgreatest : greatestAlign = 32768 := rfl
  have hword : Word.greatest = 2 ^ 64 - 1 := rfl
  exact Word.roundUp_eq_ok valid.1 (by omega)

/-- An element fits between two slots, and no two slots start at the same byte. -/
theorem room_of_strideOf {size : Nat} (power : align.isPowerOfTwo)
    (h : strideOf size align = .ok stride) : size ≤ stride ∧ 0 < stride := by
  have hle : max size 1 ≤ stride := by
    rw [Word.eq_of_roundUp_eq_ok power h]
    exact Layout.le_roundUp (Nat.pos_of_isPowerOfTwo power)
  omega

/-! ## Cleared slots -/

/-- **Cleared slots** are made by one request to the heap, and all their bytes are zero. -/
theorem cleared_ends (host : Host) (valid : ValidAlign align) (hstride : 0 < stride)
    (hcapacity : 0 < capacity) (bounds : host.heap.placement.InBounds) :
    (cleared stride align capacity).Ends host
      (fun s host' => ∃ base b, Parcel.Grants host.heap align (capacity * stride) 0 b base ∧
        s = ⟨some b, capacity, stride, align⟩ ∧
        host'.heap = host.heap.after [.granted (Parcel.totalSize align (capacity * stride)) base])
      (fun e host' => e = .error .refused ∧
        Parcel.Refuses host.heap align (capacity * stride) host'.heap) := by
  have hpos : 0 < capacity * stride := Nat.mul_pos hcapacity hstride
  unfold cleared
  cases hsize : Word.mul? capacity stride with
  | none =>
    have := Word.mul?_eq_none_iff.mp hsize
    exact Prog.Ends.fail ⟨rfl, Parcel.refuses_of_lt _ _ this⟩
  | some size =>
    obtain ⟨_, rfl⟩ := Word.mul?_eq_some_iff.mp hsize
    simp only [if_neg (Nat.pos_iff_ne_zero.mp hpos)]
    apply (Parcel.allocate_ends true (capacity * stride) host valid bounds).bind
    · rintro b host' ⟨base, hgrant, hheap⟩
      exact Prog.Ends.pure ⟨base, b, hgrant, rfl, hheap⟩
    · exact fun _ _ hrefuse => hrefuse

/-- With an alignment that is not supported no slots are cleared, and the heap is not asked.  Slots whose
size in bytes is no word are refused before the alignment is looked at. -/
theorem cleared_of_not_valid (host : Host) (h : ¬ ValidAlign align) (hpos : 0 < capacity * stride) :
    (cleared stride align capacity).Ends host (fun _ _ => False)
      fun e host' => host'.heap = host.heap ∧
        (Word.greatest < capacity * stride ∧ e = .error .refused ∨
          capacity * stride ≤ Word.greatest ∧ e = .fault (.blockAlignment align greatestAlign)) := by
  unfold cleared
  cases hsize : Word.mul? capacity stride with
  | none => exact Prog.Ends.fail ⟨rfl, .inl ⟨Word.mul?_eq_none_iff.mp hsize, rfl⟩⟩
  | some size =>
    obtain ⟨hword, rfl⟩ := Word.mul?_eq_some_iff.mp hsize
    simp only [if_neg (Nat.pos_iff_ne_zero.mp hpos)]
    apply (Parcel.allocate_of_not_valid true _ host h).bind
    · exact fun _ _ hfalse => hfalse.elim
    · exact fun _ _ hfault => ⟨hfault.2, .inr ⟨hword, hfault.1⟩⟩

/-- A granted block makes slots ready. -/
theorem ready_of_grants {heap : Heap} {fill : UInt8} {b : Parcel} {base : Nat}
    (hgrant : Parcel.Grants heap align (capacity * stride) fill b base) (valid : ValidAlign align)
    (hstride : 0 < stride) (bounds : heap.placement.InBounds) :
    (Slots.mk (some b) capacity stride align).Ready := by
  have hplaced := (hgrant.placed valid bounds).1
  have hpos : 0 < capacity * stride := hgrant.1
  refine ⟨fun _ => valid, hstride, nofun, ?_⟩
  intro b' hb
  cases hb
  exact ⟨Nat.pos_of_mul_pos_right hpos, hplaced⟩

/-! ## Slots after a growth -/

/-- The slots after a growth into the block `new`. -/
def regrown (s : Slots) (new : Parcel) (capacity : Nat) : Slots :=
  match s.block with
  | none => { s with block := some new, capacity }
  | some old => { s with block := some (new.copy old (s.capacity * s.stride)), capacity }

@[simp] theorem capacity_regrown (s : Slots) (new : Parcel) (capacity : Nat) :
    (s.regrown new capacity).capacity = capacity := by
  rcases s with ⟨block | block, _, _, _⟩ <;> rfl

@[simp] theorem stride_regrown (s : Slots) (new : Parcel) (capacity : Nat) :
    (s.regrown new capacity).stride = s.stride := by
  rcases s with ⟨block | block, _, _, _⟩ <;> rfl

@[simp] theorem align_regrown (s : Slots) (new : Parcel) (capacity : Nat) :
    (s.regrown new capacity).align = s.align := by
  rcases s with ⟨block | block, _, _, _⟩ <;> rfl

theorem Ready.regrown (h : s.Ready) {new : Parcel} (valid : ValidAlign s.align)
    (hpos : 0 < capacity) (hplaced : new.Placed s.align (capacity * s.stride)) :
    (s.regrown new capacity).Ready := by
  rcases s with ⟨block | old, held, stride, align⟩
  · refine ⟨fun _ => valid, h.stride_pos, nofun, ?_⟩
    intro b hb
    cases hb
    exact ⟨hpos, hplaced⟩
  · refine ⟨fun _ => valid, h.stride_pos, nofun, ?_⟩
    intro b hb
    cases hb
    exact ⟨hpos, hplaced.copy _ _⟩

/-- The bytes of the old slots are carried over. -/
theorem peek_regrown {new : Parcel} (hle : s.capacity * s.stride ≤ capacity * s.stride)
    (hplaced : new.Placed s.align (capacity * s.stride)) {k : Nat} (hk : k < s.capacity * s.stride)
    (h : s.Ready) : (s.regrown new capacity).peek k = s.peek k := by
  have hroom : new.start + s.capacity * s.stride ≤ new.raw.size :=
    Nat.le_trans (Nat.add_le_add_left hle _) hplaced.fits
  rcases s with ⟨block | old, held, stride, align⟩
  · have hzero : held = 0 := h.unallocated rfl
    simp only [hzero, Nat.zero_mul] at hk
    exact absurd hk (Nat.not_lt_zero k)
  · show (new.copy old (held * stride)).peek k = old.peek k
    rw [Parcel.peek_copy hroom, if_pos hk]

/-- The call that gives the block of slots back, if they have one. -/
def releaseEvents (s : Slots) : List HeapEvent :=
  match s.block with
  | none => []
  | some old => [.freed old.raw.base]

/-! ## Growing -/

/-- How a request for slots is met: by those that are there, or by a growth to `grown requested` slots.
For a growth the heap is asked once, and the old block is freed after the new one was filled. -/
inductive Reserved (s : Slots) (requested : Nat) (heap : Heap) : Slots → Heap → Prop
  | enough : requested ≤ s.capacity → Reserved s requested heap s heap
  | grown (base : Nat) (new : Parcel) : s.capacity < requested → ValidAlign s.align →
      Parcel.Grants heap s.align (grown requested * s.stride) heap.fresh new base →
      Reserved s requested heap (s.regrown new (grown requested))
        (heap.after (s.releaseEvents ++
          [.granted (Parcel.totalSize s.align (grown requested * s.stride)) base]))

/-- How a growth goes wrong.  With an alignment that no block can have it stops at the assertion of the
allocator, unless the size of the slots in bytes is no word: that is refused before. -/
inductive Denied (s : Slots) (requested : Nat) (heap : Heap) : Heap → Failure Refusal → Prop
  | refused {heap' : Heap} : ValidAlign s.align →
      Parcel.Refuses heap s.align (grown requested * s.stride) heap' →
      Denied s requested heap heap' (.error .refused)
  | oversized : ¬ ValidAlign s.align → Word.greatest < grown requested * s.stride →
      Denied s requested heap heap (.error .refused)
  | misaligned : ¬ ValidAlign s.align → grown requested * s.stride ≤ Word.greatest →
      Denied s requested heap heap (.fault (.blockAlignment s.align greatestAlign))

namespace Reserved

variable {s' : Slots} {heap heap' : Heap}

theorem placement_eq (h : Reserved s requested heap s' heap') :
    heap'.placement = heap.placement := by
  cases h <;> rfl

theorem stride_eq (h : Reserved s requested heap s' heap') : s'.stride = s.stride := by
  cases h <;> simp

theorem align_eq (h : Reserved s requested heap s' heap') : s'.align = s.align := by
  cases h <;> simp

theorem requested_le (h : Reserved s requested heap s' heap') : requested ≤ s'.capacity := by
  cases h with
  | enough hle => exact hle
  | grown _ _ _ _ _ =>
    rw [capacity_regrown]
    exact le_grown _

theorem capacity_le (h : Reserved s requested heap s' heap') : s.capacity ≤ s'.capacity := by
  cases h with
  | enough _ => exact Nat.le_refl _
  | grown _ _ hlt _ _ =>
    rw [capacity_regrown]
    exact Nat.le_trans (Nat.le_of_lt hlt) (le_grown _)

theorem ready (hreserved : Reserved s requested heap s' heap') (h : s.Ready)
    (bounds : heap.placement.InBounds) : s'.Ready := by
  cases hreserved with
  | enough _ => exact h
  | grown base new hlt hvalid hgrant =>
    have hpos : 0 < Slots.grown requested :=
      Nat.lt_of_lt_of_le (Nat.zero_lt_of_lt hlt) (le_grown _)
    exact h.regrown hvalid hpos (hgrant.placed hvalid bounds).1

/-- The elements of the old slots stay where they were. -/
theorem item_eq {α : Type} [Element α] [LawfulElement α] {i : Nat}
    (hreserved : Reserved s requested heap s' heap') (h : s.Ready) (bounds : heap.placement.InBounds)
    (hsize : Element.size α ≤ s.stride) (hi : i < s.capacity) : (s'.item i : α) = s.item i := by
  cases hreserved with
  | enough _ => rfl
  | grown base new hlt hvalid hgrant =>
    have hle : s.capacity * s.stride ≤ Slots.grown requested * s.stride :=
      Nat.mul_le_mul_right _ (Nat.le_trans (Nat.le_of_lt hlt) (le_grown _))
    refine item_congr (stride_regrown _ _ _) hsize (fun k hk => ?_) hi
    exact peek_regrown hle (hgrant.placed hvalid bounds).1 hk h

end Reserved

/-- More bytes than can be counted are refused with any alignment. -/
theorem Denied.of_lt {heap : Heap} (h : Word.greatest < grown requested * s.stride) :
    Denied s requested heap heap (.error .refused) := by
  by_cases hvalid : ValidAlign s.align
  · exact .refused hvalid (Parcel.refuses_of_lt _ _ h)
  · exact .oversized hvalid h

theorem Denied.placement_eq {heap heap' : Heap} {e : Failure Refusal}
    (h : Denied s requested heap heap' e) : heap'.placement = heap.placement := by
  cases h with
  | refused _ hrefuse => exact hrefuse.placement_eq
  | oversized _ _ => rfl
  | misaligned _ _ => rfl

theorem mul_stride_lt_grown (hstride : 0 < s.stride) (h : s.capacity < requested) :
    s.capacity * s.stride < grown requested * s.stride :=
  Nat.mul_lt_mul_of_pos_right (Nat.lt_of_lt_of_le h (le_grown _)) hstride

/-- The one step of a growth that may go wrong. -/
theorem resize_grown_ends (host : Host) (h : s.Ready) (hlt : s.capacity < requested)
    (hfit : grown requested * s.stride ≤ Word.greatest) (bounds : host.heap.placement.InBounds) :
    (Parcel.resize s.block s.align (s.capacity * s.stride) (grown requested * s.stride)).Ends host
      (fun r host' => Reserved s requested host.heap { s with block := r, capacity := grown requested }
        host'.heap)
      (fun e host' => Denied s requested host.heap host'.heap e) := by
  have hless := mul_stride_lt_grown h.stride_pos hlt
  by_cases hvalid : ValidAlign s.align
  · obtain ⟨block, capacity, stride, align⟩ := s
    cases block with
    | none =>
      apply (Parcel.resize_none_ends _ _ host hvalid bounds).mono
      · rintro r host' (⟨hzero, _⟩ | ⟨base, new, hgrant, rfl, hheap⟩)
        · omega
        · rw [hheap]
          exact .grown base new hlt hvalid hgrant
      · rintro e host' ⟨rfl, _, hrefuse⟩
        exact .refused hvalid hrefuse
    | some old =>
      have hplaced := (h.placed old rfl).2
      apply (Parcel.resize_ends _ _ host hplaced hvalid bounds).mono
      · rintro r host' (⟨hzero, _⟩ | ⟨_, hle, _⟩ | ⟨_, base, new, hgrant, rfl, hheap⟩)
        · omega
        · omega
        · rw [hheap]
          exact .grown base new hlt hvalid hgrant
      · rintro e host' ⟨rfl, _, _, hrefuse⟩
        exact .refused hvalid hrefuse
  · apply (Parcel.resize_of_not_valid s.block host hvalid hless).mono
    · exact fun _ _ hfalse => hfalse.elim
    · rintro e host' ⟨rfl, hheap⟩
      rw [hheap]
      exact .misaligned hvalid hfit

/-- **Growing.** What goes wrong changes nothing. -/
theorem reserve_ends (host : Host) (h : s.Ready) (hreq : requested ≤ Word.greatest)
    (bounds : host.heap.placement.InBounds) :
    (reserve requested).Ends (s, host)
      (fun a s' => a = s.capacity ∧ Reserved s requested host.heap s'.1 s'.2.heap)
      (fun e s' => s'.1 = s ∧ s.capacity < requested ∧ Denied s requested host.heap s'.2.heap e) := by
  have hmax : max s.stride 1 = s.stride := Nat.max_eq_left h.stride_pos
  have hword : Unsigned.greatest Word.width = Word.greatest := rfl
  have hgrown := grownCapacity_eq s.capacity s.stride (hword ▸ hreq)
  rw [hmax, hword] at hgrown
  unfold reserve
  apply Prog.Ends.bind_ok (Hosted.object_eq s host)
  by_cases hkeep : requested ≤ s.capacity
  · rw [if_pos hkeep]
    apply Hosted.trace_ends
    intro log
    exact Prog.Ends.pure ⟨rfl, .enough hkeep⟩
  have hlt : s.capacity < requested := Nat.lt_of_not_le hkeep
  rw [if_neg hkeep] at hgrown
  rw [if_neg hkeep]
  by_cases hfit : grown requested * s.stride ≤ Word.greatest
  · rw [if_pos hfit] at hgrown
    apply Prog.Ends.bind_ok (Prog.lift_failure_ok hgrown)
    apply Hosted.trace_ends
    intro log
    apply Prog.Ends.bind_ok (Prog.lift_ok (Word.mul_eq_ok h.size_le))
    apply Prog.Ends.bind_ok (Prog.lift_ok (Word.mul_eq_ok hfit))
    apply (Hosted.onHost_ends (resize_grown_ends ⟨host.heap, log⟩ h hlt hfit bounds)).bind
    · rintro r _ ⟨host', rfl, hreserved⟩
      apply Prog.Ends.bind_ok (Hosted.update_eq _ _ _)
      exact Prog.Ends.pure ⟨rfl, hreserved⟩
    · rintro e _ ⟨host', rfl, hdenied⟩
      exact ⟨rfl, hlt, hdenied⟩
  · rw [if_neg hfit] at hgrown
    apply Prog.Ends.bind_error (Prog.lift_failure_error hgrown)
    exact ⟨rfl, hlt, .of_lt (Nat.lt_of_not_le hfit)⟩

end Slots

end AlignedSlots
