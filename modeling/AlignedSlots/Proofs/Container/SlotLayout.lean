import Mathlib
import AlignedSlots.Proofs.Container.ByteFrames

/-!
# The layout of slots

Slots of elements with a size and an alignment are `Slots.Spaced`: the distance between them is the least
multiple of the alignment that leaves room for an element.  Wherever there are slots they are then
`Slots.Laid` in their block: next to each other, aligned, inside the raw block and clear of the distance
kept in front of them.

`slots_stay_laid` says that the slots of buffers and of static arrays are laid out so after any run of
calls, and which bytes the next call may change.
-/

namespace AlignedSlots

namespace Slots

variable {s s' : Slots} {size align stride : Nat}

/-! ## The distance between slots -/

/-- The distances that keep every slot aligned and leave room for an element.  No two slots start at the
same byte, also where elements take no bytes. -/
def distances (size align : Nat) : Set Nat := {m | align ∣ m ∧ max size 1 ≤ m}

/-- The distance between slots is the least one. -/
theorem isLeast_of_strideOf (power : align.isPowerOfTwo) (h : strideOf size align = .ok stride) :
    IsLeast (distances size align) stride := by
  have hpos := Nat.pos_of_isPowerOfTwo power
  rw [Word.eq_of_roundUp_eq_ok power h]
  refine ⟨⟨Layout.dvd_roundUp _ _, Layout.le_roundUp hpos⟩, ?_⟩
  rintro m ⟨hdvd, hle⟩
  exact Layout.roundUp_le_of_dvd hpos hle hdvd

/-- Slots at the right distance from each other. -/
structure Spaced (s : Slots) (size align : Nat) : Prop where
  align_eq : s.align = align
  stride_least : IsLeast (distances size align) s.stride

theorem Spaced.of_eq (h : s.Spaced size align) (hstride : s'.stride = s.stride)
    (halign : s'.align = s.align) : s'.Spaced size align :=
  ⟨halign.trans h.align_eq, hstride.symm ▸ h.stride_least⟩

/-! ## Slots in their block -/

/-- The two bytes in front of the slots, which lead back to the start of the raw block. -/
def header (s : Slots) : Region := ⟨s.address - distanceSize, distanceSize⟩

/-- Slots for elements with a size and an alignment, in a block. -/
structure Laid (s : Slots) (b : Parcel) (size align : Nat) : Prop where
  block_eq : s.block = some b
  stride_least : IsLeast (distances size align) s.stride
  /-- Slot `i` is found at its place. -/
  offset_eq : ∀ i < s.capacity, s.offset i = .ok (i * s.stride)
  aligned : ∀ i < s.capacity, align ∣ (s.region i).base
  inside : ∀ i < s.capacity, (s.region i).Inside b.raw.region
  apart : ∀ i < s.capacity, ∀ j < s.capacity, i ≠ j → (s.region i).Apart (s.region j)
  header_inside : s.header.Inside b.raw.region
  header_apart : ∀ i < s.capacity, (s.region i).Apart s.header
  header_marks : b.raw.base + b.distance = s.address

/-- Ready slots at the right distance are laid out, as soon as there are any. -/
theorem Ready.exists_laid (h : s.Ready) (hs : s.Spaced size align) (hpos : 0 < s.capacity) :
    ∃ b, s.Laid b size align := by
  obtain ⟨b, hb, _⟩ := h.holds hpos
  obtain ⟨_, hplaced⟩ := h.placed b hb
  have haddress : s.address = b.raw.base + b.start := by
    unfold address
    rw [hb]
    rfl
  have hroom : 2 ≤ b.start := hplaced.room
  have hfits := hplaced.fits
  have hdvd : align ∣ s.address := hs.align_eq ▸ h.aligned hpos
  have hslot : ∀ i < s.capacity, i * s.stride + s.stride ≤ s.capacity * s.stride := fun i hi =>
    mul_stride_add_le hi
  refine ⟨b, hb, hs.stride_least, fun i hi => h.offset_eq hi, fun i _ => ?_, fun i hi => ?_,
    fun i _ j _ hij => s.region_apart_of_ne hij, ?_, fun i _ => ?_, ?_⟩
  · exact Nat.dvd_add hdvd (Nat.dvd_mul_left_of_dvd hs.stride_least.1.1 i)
  · have := hslot i hi
    refine ⟨?_, ?_⟩
    · show b.raw.base ≤ s.address + i * s.stride
      omega
    · show s.address + i * s.stride + s.stride ≤ b.raw.base + b.raw.size
      omega
  · refine ⟨?_, ?_⟩
    · show b.raw.base ≤ s.address - 2
      omega
    · show s.address - 2 + 2 ≤ b.raw.base + b.raw.size
      omega
  · right
    show s.address - 2 + 2 ≤ s.address + i * s.stride
    omega
  · rw [hplaced.marked, haddress]

/-- Cleared slots are spaced as asked. -/
theorem cleared_spaced (host : Host) (capacity : Nat)
    (hleast : IsLeast (distances size align) stride) :
    (cleared stride align capacity).Ends host (fun s _ => s.Spaced size align)
      fun _ _ => True := by
  have hspaced : ∀ block, (Slots.mk block capacity stride align).Spaced size align := fun _ =>
    ⟨rfl, hleast⟩
  unfold cleared
  cases Word.mul? capacity stride with
  | none => exact Prog.Ends.fail trivial
  | some bytes =>
    by_cases hzero : bytes = 0
    · simp only [if_pos hzero]
      exact Prog.Ends.pure (hspaced none)
    · simp only [if_neg hzero]
      apply (Prog.ends_raises (Parcel.allocate true align bytes) host).bind
      · exact fun b _ _ => Prog.Ends.pure (hspaced (some b))
      · exact fun _ _ _ => trivial

end Slots

/-! ## Buffers -/

namespace Buffer

variable {α ν : Type} [Element α] [LawfulElement α] {align : Nat} {b : Buffer α} {host : Host}

/-- The slots of a new buffer are spaced for its elements. -/
theorem spaced_of_empty (hempty : Buffer.empty α align = .ok b) :
    b.slots.Spaced (Element.size α) (max align (Element.align α)) := by
  obtain ⟨valid, stride, hstride, rfl⟩ := eq_of_empty hempty
  exact ⟨rfl, Slots.isLeast_of_strideOf
    (isPowerOfTwo_max valid.1 LawfulElement.align_isPowerOfTwo) hstride⟩

variable [Initial α]

/-- What every run of calls keeps of a buffer. -/
structure Keeps (align : Nat) (s : (Buffer α × ν) × Host) : Prop where
  sound : s.1.1.Sound align
  spaced : s.1.1.slots.Spaced (Element.size α) (max align (Element.align α))
  bounds : s.2.heap.placement.InBounds

omit [Initial α] in
theorem keeps_of_empty (hempty : Buffer.empty α align = .ok b)
    (bounds : host.heap.placement.InBounds) (v : ν) : Keeps align ((b, v), host) :=
  ⟨⟨_, holds_of_empty hempty⟩, spaced_of_empty hempty, bounds⟩

theorem Keeps.run {s : (Buffer α × ν) × Host} (h : Keeps align s) (c : BufferCall α ν) :
    Keeps align (c.run.after s) := by
  obtain ⟨hsound, hspaced, bounds⟩ := h
  have ⟨w, hholds⟩ := hsound
  have hfollows := run_follows c hholds s.1.2 s.2 bounds
  obtain ⟨hsound', hturn⟩ := (tended α ν align).run_after c hsound s.1.2 bounds
  have hplacement : (c.run.after s).2.heap.placement = s.2.heap.placement := hturn.placement_eq
  refine ⟨hsound', hspaced.of_eq hfollows.stride_eq hfollows.align_eq, ?_⟩
  rw [hplacement]
  exact bounds

/-- A buffer whose slots, if there are any, are laid out for its elements.  A call that comes next changes
bytes of the slots that it writes to and of no others.  An element that is put into a visible slot is found
there byte by byte, and filling a visible slot changes all of its bytes. -/
structure LaidOut (align : Nat) (s : (Buffer α × ν) × Host) : Prop where
  limit_le : s.1.1.limit ≤ s.1.1.capacity
  laid : 0 < s.1.1.capacity →
    ∃ p, s.1.1.slots.Laid p (Element.size α) (max align (Element.align α))
  follows : ∀ call : BufferCall α ν, Slots.Follows (fun i => call.Writes s.1.1.limit i)
    (call.demand s.1.1.limit) s.1.1.slots (call.run.after s).1.1.slots
  replaced : ∀ i < s.1.1.limit, ∀ x : α, ∃ t,
    BufferCall.run (.step (.replace i x)) s = .ok () t ∧ ∀ k < Element.size α,
      t.1.1.slots.cellAt ((s.1.1.slots.region i).base + k) = some (Element.encode x k)
  filled : ∀ i < s.1.1.limit, ∀ value, ∃ t,
    BufferCall.run (.step (.fillSlot i value)) s = .ok () t ∧
      ∀ a, (s.1.1.slots.region i).Covers a → t.1.1.slots.cellAt a = some (.byte value)

theorem Keeps.laidOut {s : (Buffer α × ν) × Host} (h : Keeps align s) : LaidOut align s := by
  obtain ⟨w, hholds⟩ := h.sound
  have hready := hholds.ready
  have hcapacity : ∀ i < s.1.1.limit, i < s.1.1.slots.capacity := fun i hi =>
    Nat.lt_of_lt_of_le hi hholds.limit_le
  refine ⟨hholds.limit_le, hready.exists_laid h.spaced, fun call => ?_, fun i hi x => ?_,
    fun i hi value => ?_⟩
  · exact run_follows call hholds s.1.2 s.2 h.bounds
  · have hrun := Hosted.onObject_ok (replace_eq hholds hi x s.2) s.1.2
    exact ⟨_, Prog.map_ok (Prog.map_ok hrun _) _,
      fun _ => Slots.cellAt_store hready (hcapacity i hi) hholds.size_le x⟩
  · have hrun := Hosted.onObject_ok (fillSlot_eq hholds hi value s.2) s.1.2
    exact ⟨_, Prog.map_ok (Prog.map_ok hrun _) _,
      fun _ => Slots.cellAt_fill hready (hcapacity i hi) value⟩

/-- **The slots of a buffer** are laid out after any run of calls. -/
theorem session_laidOut (hempty : Buffer.empty α align = .ok b)
    (bounds : host.heap.placement.InBounds) (v : ν) (calls : List (BufferCall α ν)) :
    LaidOut align (Prog.session BufferCall.run calls ((b, v), host)).2 := by
  have hkeeps := Prog.session_induct (Keeps align) (fun c _ h => h.run c) calls
    (keeps_of_empty hempty bounds v)
  exact hkeeps.laidOut

end Buffer

/-! ## Static arrays -/

namespace StaticArray

variable {α ν : Type} [Element α] {n align : Nat} {a : StaticArray α n} {host host' : Host}

/-- What every run of calls keeps of an array. -/
structure Keeps (align : Nat) (s : (StaticArray α n × ν) × Host) : Prop where
  sound : s.1.1.Sound
  spaced : s.1.1.slots.Spaced (Element.size α) (max align (Element.align α))

theorem Keeps.run {s : (StaticArray α n × ν) × Host} (h : Keeps align s) (c : ArrayCall α ν) :
    Keeps align (c.run.after s) := by
  have hrewrites := run_rewrites c h.sound s.1.2 s.2
  have hplace := hrewrites.place
  exact ⟨h.sound.rewritten hplace hrewrites.ready, h.spaced.of_eq hplace.stride_eq hplace.align_eq⟩

/-- An array whose elements, if there are any, are laid out.  A call that comes next changes bytes of the
elements that it writes to and of no others, and an element that is put in is found byte by byte. -/
structure LaidOut (align : Nat) (s : (StaticArray α n × ν) × Host) : Prop where
  capacity_eq : s.1.1.slots.capacity = n
  laid : 0 < n → ∃ p, s.1.1.slots.Laid p (Element.size α) (max align (Element.align α))
  rewrites : ∀ call : ArrayCall α ν, Slots.Rewrites (fun i => call.Writes n i) s.1.1.slots
    (call.run.after s).1.1.slots
  replaced : ∀ i < n, ∀ x : α, ∃ t, ArrayCall.run (.replace i x) s = .ok () t ∧
    ∀ k < Element.size α,
      t.1.1.slots.cellAt ((s.1.1.slots.region i).base + k) = some (Element.encode x k)

theorem Keeps.laidOut {s : (StaticArray α n × ν) × Host} (h : Keeps align s) :
    LaidOut align s := by
  have hready := h.sound.ready
  have hcapacity := h.sound.capacity_eq
  refine ⟨hcapacity, fun hpos => hready.exists_laid h.spaced (by omega),
    fun call => run_rewrites call h.sound s.1.2 s.2, fun i hi x => ?_⟩
  have hrun := Hosted.onObject_ok (replace_eq h.sound hi x s.2) s.1.2
  exact ⟨_, Prog.map_ok hrun _,
    fun _ => Slots.cellAt_store hready (by omega) h.sound.size_le x⟩

variable [LawfulElement α] [Initial α]

/-- The elements of a new array are spaced as asked. -/
theorem create_spaced (n align : Nat) (host : Host) (bounds : host.heap.placement.InBounds) :
    (create α n align).Ends host
      (fun a _ => a.slots.Spaced (Element.size α) (max align (Element.align α)))
      fun _ _ => True := by
  by_cases hpower : align.isPowerOfTwo
  · have hassert : assertPowerOfTwo align = .ok () := if_pos hpower
    have hmax : (max align (Element.align α)).isPowerOfTwo :=
      isPowerOfTwo_max hpower LawfulElement.align_isPowerOfTwo
    cases hstride : Slots.strideOf (Element.size α) (max align (Element.align α)) with
    | error f =>
      exact Prog.Ends.of_error (create_of_unchecked host (.inr ⟨hassert, hstride⟩)) trivial
    | ok stride =>
      have hleast := Slots.isLeast_of_strideOf hmax hstride
      have hspaced : (Prog.mapError ContainerError.ofAlloc (Slots.cleared stride
          (max align (Element.align α)) n)).Ends host
          (fun s _ => s.Spaced (Element.size α) (max align (Element.align α))) fun _ _ => True :=
        (Slots.cleared_spaced host n hleast).mapError
      apply (create_of_cleared hpower hstride bounds hspaced).mono _ fun _ _ _ => trivial
      rintro a _ ⟨slots, hspaced, hplace, _, _⟩
      exact hspaced.of_eq hplace.stride_eq hplace.align_eq
  · have hassert : assertPowerOfTwo align = .error .notPowerOfTwo := if_neg hpower
    exact Prog.Ends.of_error (create_of_unchecked host (.inl hassert)) trivial

/-- **The elements of an array** are laid out after any run of calls. -/
theorem session_laidOut (bounds : host.heap.placement.InBounds)
    (hmake : create α n align host = .ok a host') (v : ν) (calls : List (ArrayCall α ν)) :
    LaidOut align (Prog.session ArrayCall.run calls ((a, v), host')).2 := by
  have hsound := ((create_ends n align host bounds).of_run_ok hmake).1
  have hspaced := (create_spaced n align host bounds).of_run_ok hmake
  have hkeeps : Keeps align (Prog.session ArrayCall.run calls ((a, v), host')).2 :=
    Prog.session_induct (Keeps align) (fun c _ h => h.run c) calls ⟨hsound, hspaced⟩
  exact hkeeps.laidOut

end StaticArray

/-- **Slots stay laid out**, in every buffer and every static array, wherever the heap puts their blocks. -/
theorem slots_stay_laid (α ν : Type) [Element α] [LawfulElement α] [Initial α] (align : Nat) (v : ν)
    {host : Host} (bounds : host.heap.placement.InBounds) :
    (Supported α → ValidAlign align → ∃ b, Buffer.empty α align = .ok b) ∧
    (∀ b, Buffer.empty α align = .ok b → ∀ calls : List (BufferCall α ν),
      Buffer.LaidOut align (Prog.session BufferCall.run calls ((b, v), host)).2) ∧
    ∀ n a host', StaticArray.create α n align host = .ok a host' → ∀ calls : List (ArrayCall α ν),
      StaticArray.LaidOut align (Prog.session ArrayCall.run calls ((a, v), host')).2 :=
  ⟨Buffer.exists_empty, fun _ hempty => Buffer.session_laidOut hempty bounds v,
    fun _ _ _ hmake => StaticArray.session_laidOut bounds hmake v⟩

/-- Two elements of three bytes are put into slots of four bytes, and the second slot is filled.  Its last
byte, which belongs to no element, is carried over by a growth. -/
theorem slots_stay_laid_padding :
    ∃ (b : Buffer (Vector (FixedInt ⟨8, false⟩) 3))
      (s t : (Buffer (Vector (FixedInt ⟨8, false⟩) 3) × Unit) × Host) (p : Parcel),
      Host.ordinary.heap.placement.InBounds ∧
      Buffer.empty (Vector (FixedInt ⟨8, false⟩) 3) 4 = .ok b ∧
      (Prog.session BufferCall.run [.step (.push #v[.ofInt _ 1, .ofInt _ 2, .ofInt _ 3]),
        .step .emplace, .step (.fillSlot 1 171)] ((b, ()), Host.ordinary)).2 = s ∧
      s.1.1.slots.Laid p 3 4 ∧ (BufferCall.run (.step (.reserve 9))).after s = t ∧
      s.1.1.capacity < t.1.1.capacity ∧
      t.1.1.slots.cellAt ((t.1.1.slots.region 1).base + 3) = some (.byte 171) := by
  let calls : List (BufferCall (Vector (FixedInt ⟨8, false⟩) 3) Unit) :=
    [.step (.push #v[.ofInt _ 1, .ofInt _ 2, .ofInt _ 3]), .step .emplace, .step (.fillSlot 1 171)]
  have hempty : Buffer.empty (Vector (FixedInt ⟨8, false⟩) 3) 4 = .ok ⟨Slots.empty 4 4, 0⟩ := rfl
  obtain ⟨s, hs⟩ :
      ∃ s, (Prog.session BufferCall.run calls ((⟨Slots.empty 4 4, 0⟩, ()), Host.ordinary)).2 = s :=
    ⟨_, rfl⟩
  have hslots : s.1.1.capacity = 2 ∧ s.1.1.slots.stride = 4 ∧
      s.1.1.slots.cellAt ((s.1.1.slots.region 1).base + 3) = some (.byte 171) ∧
      ((BufferCall.run (.step (.reserve 9))).after s).1.1.capacity = 14 := by
    rw [← hs]
    decide +kernel
  obtain ⟨hcapacity, hstride, hcell, hgrown⟩ := hslots
  obtain ⟨_, hbuffer, _⟩ := slots_stay_laid (Vector (FixedInt ⟨8, false⟩) 3) Unit 4 ()
    Host.ordinary_sound.inBounds
  have hlaidOut := hbuffer _ hempty calls
  rw [hs] at hlaidOut
  obtain ⟨p, hlaid⟩ := hlaidOut.laid (by omega)
  have hlt : s.1.1.capacity < ((BufferCall.run (.step (.reserve 9))).after s).1.1.capacity := by
    omega
  have hcarried := (hlaidOut.follows (.step (.reserve 9))).carried hlt 1 (by
    show 1 < s.1.1.capacity
    omega) 3 (by omega)
  exact ⟨_, s, _, p, Host.ordinary_sound.inBounds, hempty, hs, hlaid, rfl, hlt,
    hcarried.trans hcell⟩

end AlignedSlots
