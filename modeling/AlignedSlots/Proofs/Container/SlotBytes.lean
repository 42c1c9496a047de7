import Mathlib
import AlignedSlots.Proofs.Container.SlotFilling

/-!
# The bytes of slots

A row of elements says nothing of the bytes between them.  Here slots are seen by address:
`Slots.cellAt` is what their raw block holds at an address, the padding of the slots and the distance in
front of the first one included, and `Slots.region` is where a slot lies.

`Slots.Rewrites` says which slots hold other bytes than before, while all other bytes of the raw block are
as they were.  `Slots.Follows` says the same of slots that may have grown: then the bytes of every slot
are found again in the new block.
-/

namespace AlignedSlots

/-! ## Ranges of addresses -/

namespace Region

/-- The address is in the range. -/
def Covers (r : Region) (address : Nat) : Prop := r.base ≤ address ∧ address < r.base + r.size

instance (r : Region) (address : Nat) : Decidable (r.Covers address) :=
  inferInstanceAs (Decidable (_ ∧ _))

/-- All addresses of the first range are in the second one. -/
def Inside (r q : Region) : Prop := q.base ≤ r.base ∧ r.base + r.size ≤ q.base + q.size

theorem Apart.not_covers {r q : Region} {address : Nat} (h : r.Apart q) (hr : r.Covers address) :
    ¬ q.Covers address := by
  rintro ⟨hlow, hhigh⟩
  obtain ⟨hlow', hhigh'⟩ := hr
  rcases h with hbefore | hbehind
  · omega
  · omega

end Region

/-- What a raw block holds at one of its addresses. -/
def RawBlock.cellAt (r : RawBlock) (address : Nat) : Option Cell :=
  if r.region.Covers address then some (r.cells.peek (address - r.base)) else none

/-- A change to a range of the payload is seen at the addresses of that range only. -/
theorem Parcel.cellAt_mapCells {b : Parcel} {f : Cells → Cells} {offset count address : Nat}
    (hsize : (f b.raw.cells).size = b.raw.cells.size)
    (hpeek : ∀ i, i < b.start + offset ∨ b.start + offset + count ≤ i →
      (f b.raw.cells).peek i = b.raw.cells.peek i)
    (houtside : ¬ Region.Covers ⟨b.address + offset, count⟩ address) :
    (b.mapCells f).raw.cellAt address = b.raw.cellAt address := by
  have hregion : (b.mapCells f).raw.region = b.raw.region := by
    simp [RawBlock.region, RawBlock.size, hsize]
  unfold RawBlock.cellAt
  rw [hregion, base_mapCells, cells_mapCells]
  by_cases hcovers : b.raw.region.Covers address
  · rw [if_pos hcovers, if_pos hcovers, hpeek]
    have hlow : b.raw.base ≤ address := hcovers.1
    have hout : ¬ (b.raw.base + b.start + offset ≤ address ∧
      address < b.raw.base + b.start + offset + count) := houtside
    omega
  · rw [if_neg hcovers, if_neg hcovers]

namespace Slots

variable {α ε : Type} {s s' s'' : Slots} {i requested : Nat} {written written' : Nat → Prop}

/-- What the raw block of the slots holds at an address. -/
def cellAt (s : Slots) (address : Nat) : Option Cell := s.block.bind fun b => b.raw.cellAt address

/-- Where slot `i` lies. -/
def region (s : Slots) (i : Nat) : Region := ⟨s.address + i * s.stride, s.stride⟩

theorem SamePlace.region_eq (h : SamePlace s s') : s'.region = s.region := by
  funext i
  unfold region
  rw [h.address_eq, h.stride_eq]

theorem region_apart (s : Slots) {i j : Nat} (h : i < j) : (s.region i).Apart (s.region j) := by
  have hle : i * s.stride + s.stride ≤ j * s.stride := mul_stride_add_le_mul h
  left
  show s.address + i * s.stride + s.stride ≤ s.address + j * s.stride
  omega

theorem region_apart_of_ne (s : Slots) {i j : Nat} (h : i ≠ j) :
    (s.region i).Apart (s.region j) := by
  rcases Nat.lt_or_gt_of_ne h with hlt | hgt
  · exact s.region_apart hlt
  · exact (s.region_apart hgt).symm

/-- The payload, seen by address. -/
theorem Ready.cellAt_eq (h : s.Ready) {k : Nat} (hk : k < s.capacity * s.stride) :
    s.cellAt (s.address + k) = some (s.peek k) := by
  obtain ⟨b, hb, hfits⟩ := h.holds (Nat.pos_of_mul_pos_right (Nat.zero_lt_of_lt hk))
  obtain ⟨block, capacity, stride, align⟩ := s
  cases hb
  have hcovers : b.raw.region.Covers (b.raw.base + b.start + k) := by
    refine ⟨?_, ?_⟩
    · show b.raw.base ≤ _
      omega
    · show _ < b.raw.base + b.raw.size
      have hk : k < capacity * stride := hk
      have hfits : b.start + capacity * stride ≤ b.raw.size := hfits
      omega
  have hoffset : b.raw.base + b.start + k - b.raw.base = b.start + k := by omega
  show b.raw.cellAt (b.raw.base + b.start + k) = some (b.raw.cells.peek (b.start + k))
  unfold RawBlock.cellAt
  rw [if_pos hcovers, hoffset]

/-! ## Writes in place -/

/-- The second slots are the first ones after writes to some of them: no other byte of the raw block has
changed, neither in another slot nor in front of the slots or behind them. -/
structure Rewrites (written : Nat → Prop) (s s' : Slots) : Prop where
  place : SamePlace s s'
  ready : s'.Ready
  cellAt_eq : ∀ a, (∀ i < s.capacity, written i → ¬ (s.region i).Covers a) →
    s'.cellAt a = s.cellAt a

theorem Rewrites.refl (h : s.Ready) : Rewrites written s s := ⟨.refl s, h, fun _ _ => rfl⟩

theorem Rewrites.mono (h : Rewrites written s s') (himp : ∀ i, written i → written' i) :
    Rewrites written' s s' :=
  ⟨h.place, h.ready, fun a ha => h.cellAt_eq a fun i hi hw => ha i hi (himp i hw)⟩

theorem Rewrites.trans (h : Rewrites written s s') (h' : Rewrites written s' s'') :
    Rewrites written s s'' := by
  refine ⟨h.place.trans h'.place, h'.ready, fun a ha => ?_⟩
  rw [h'.cellAt_eq a, h.cellAt_eq a ha]
  rw [h.place.capacity_eq, h.place.region_eq]
  exact ha

/-- The block is changed at one slot only. -/
theorem rewrites_mapBlock {f : Parcel → Parcel} (hplace : SamePlace s (s.mapBlock f))
    (hready : (s.mapBlock f).Ready) (hi : i < s.capacity)
    (hcells : ∀ (b : Parcel) (a : Nat), ¬ Region.Covers ⟨b.address + i * s.stride, s.stride⟩ a →
      (f b).raw.cellAt a = b.raw.cellAt a) : Rewrites (· = i) s (s.mapBlock f) := by
  refine ⟨hplace, hready, fun a ha => ?_⟩
  have hslot := ha i hi rfl
  rcases s with ⟨block | block, capacity, stride, align⟩
  · rfl
  · exact hcells block a hslot

/-- An element is written into its slot. -/
theorem rewrites_store [Element α] (h : s.Ready) (hi : i < s.capacity)
    (hsize : Element.size α ≤ s.stride) (x : α) :
    Rewrites (· = i) s (s.store (i * s.stride) x) := by
  refine rewrites_mapBlock (samePlace_store s _ x) (h.store _ x) hi fun b a hslot => ?_
  refine Parcel.cellAt_mapCells (Cells.size_overwrite _ _ _ _)
    (fun j hj => Cells.peek_overwrite_of_notMem _ hj) ?_
  rintro ⟨hlow, hhigh⟩
  have hhigh : a < b.address + i * s.stride + Element.size α := hhigh
  exact hslot ⟨hlow, Nat.lt_of_lt_of_le hhigh (Nat.add_le_add_left hsize _)⟩

/-- A slot is filled. -/
theorem rewrites_fill (h : s.Ready) (hi : i < s.capacity) (value : UInt8) :
    Rewrites (· = i) s (s.fill (i * s.stride) s.stride value) := by
  refine rewrites_mapBlock (samePlace_fill s _ _ value) (h.fill _ _ value) hi fun b a hslot => ?_
  refine Parcel.cellAt_mapCells (Cells.size_fill _ _ _ _) (fun j hj => ?_) hslot
  rw [Cells.peek_fill, if_neg (by omega)]

/-- The bytes of an element that was written. -/
theorem cellAt_store [Element α] (h : s.Ready) (hi : i < s.capacity)
    (hsize : Element.size α ≤ s.stride) (x : α) {k : Nat} (hk : k < Element.size α) :
    (s.store (i * s.stride) x).cellAt ((s.region i).base + k) = some (Element.encode x k) := by
  have hslot : i * s.stride + s.stride ≤ s.capacity * s.stride := mul_stride_add_le hi
  have hplace := samePlace_store s (i * s.stride) x
  have hoffset : i * s.stride + k < (s.store (i * s.stride) x).capacity *
      (s.store (i * s.stride) x).stride := by
    rw [hplace.capacity_eq, hplace.stride_eq]
    omega
  show cellAt _ (s.address + i * s.stride + k) = _
  rw [Nat.add_assoc, ← hplace.address_eq, (h.store _ x).cellAt_eq hoffset,
    peek_store_of_mem x hk (h.holds_of_lt hi hsize)]

/-- A slot that was filled holds nothing but the byte. -/
theorem cellAt_fill (h : s.Ready) (hi : i < s.capacity) (value : UInt8) {a : Nat}
    (ha : (s.region i).Covers a) :
    (s.fill (i * s.stride) s.stride value).cellAt a = some (.byte value) := by
  have hslot : i * s.stride + s.stride ≤ s.capacity * s.stride := mul_stride_add_le hi
  have hplace := samePlace_fill s (i * s.stride) s.stride value
  have hlow : s.address + i * s.stride ≤ a := ha.1
  have hhigh : a < s.address + i * s.stride + s.stride := ha.2
  obtain ⟨k, rfl⟩ : ∃ k, a = s.address + k := ⟨a - s.address, by omega⟩
  rw [← hplace.address_eq, (h.fill _ _ _).cellAt_eq (by rw [hplace.capacity_eq, hplace.stride_eq]; omega),
    h.peek_fill (Nat.zero_lt_of_lt hi) hslot value, if_pos (by omega)]

/-- The initial value is written into each new slot. -/
theorem initialise_rewrites [Element α] [Initial α] (h : s.Ready) (hsize : Element.size α ≤ s.stride)
    {start count : Nat} (hfit : start + count ≤ s.capacity) (host : Host) :
    (initialise (ε := ε) α start count).Ends (s, host)
      (fun _ s' => Rewrites (fun i => start ≤ i) s s'.1) fun _ _ => False := by
  induction count generalizing s start with
  | zero => exact Prog.Ends.pure (.refl h)
  | succ count ih =>
    have hstart : start < s.capacity := by omega
    have hfirst := rewrites_store h hstart hsize (Initial.initial : α)
    have hplace := hfirst.place
    unfold initialise
    apply Prog.Ends.bind_ok (locate_eq h hstart host)
    apply Prog.Ends.bind_ok (Hosted.update_eq _ _ _)
    have hrest : start + 1 + count ≤
        (s.store (start * s.stride) (Initial.initial : α)).capacity := by
      rw [hplace.capacity_eq]
      omega
    apply (ih hfirst.ready (hplace.stride_eq.symm ▸ hsize) hrest).mono _ fun _ _ hfalse => hfalse
    intro _ s' hothers
    apply (hfirst.mono fun i hi => ?_).trans (hothers.mono fun i hi => ?_)
    · exact Nat.le_of_eq hi.symm
    · exact Nat.le_of_succ_le hi

/-! ## Growing -/

/-- The second slots come after the first ones, with writes to some of these and with room for `requested`
slots in all. -/
structure Follows (written : Nat → Prop) (requested : Nat) (s s' : Slots) : Prop where
  stride_eq : s'.stride = s.stride
  align_eq : s'.align = s.align
  capacity_le : s.capacity ≤ s'.capacity
  /-- Slots grow only where there is no room. -/
  lacked : s.capacity < s'.capacity → s.capacity < requested
  /-- Slots that have not grown have changed in place, where they were written to. -/
  in_place : s'.capacity = s.capacity → s'.address = s.address ∧
    ∀ a, (∀ i < s.capacity, written i → ¬ (s.region i).Covers a) → s'.cellAt a = s.cellAt a
  /-- A growth carries every byte of every slot over. -/
  carried : s.capacity < s'.capacity → ∀ i < s.capacity, ∀ k < s.stride,
    s'.cellAt ((s'.region i).base + k) = s.cellAt ((s.region i).base + k)

/-- Slots that have changed in place need no room. -/
theorem Rewrites.follows (h : Rewrites written s s') : Follows written requested s s' := by
  have hnot : ¬ s.capacity < s'.capacity := by
    rw [h.place.capacity_eq]
    exact Nat.lt_irrefl _
  exact ⟨h.place.stride_eq, h.place.align_eq, Nat.le_of_eq h.place.capacity_eq.symm,
    fun hlt => absurd hlt hnot, fun _ => ⟨h.place.address_eq, h.cellAt_eq⟩,
    fun hlt => absurd hlt hnot⟩

theorem Follows.refl (s : Slots) : Follows written requested s s :=
  ⟨rfl, rfl, Nat.le_refl _, fun h => absurd h (Nat.lt_irrefl _), fun _ => ⟨rfl, fun _ _ => rfl⟩,
    fun h => absurd h (Nat.lt_irrefl _)⟩

/-- Writes after a growth are writes to some of the slots, or to new ones only. -/
theorem Follows.trans_rewrites (h : Follows written requested s s')
    (h' : Rewrites written' s' s'')
    (hsame : s'.capacity = s.capacity → ∀ i < s.capacity, written' i → written i)
    (hnew : s.capacity < s'.capacity → ∀ i, written' i → s.capacity ≤ i) :
    Follows written requested s s'' := by
  have hcapacity := h'.place.capacity_eq
  refine ⟨h'.place.stride_eq.trans h.stride_eq, h'.place.align_eq.trans h.align_eq,
    hcapacity ▸ h.capacity_le, hcapacity ▸ h.lacked, fun heq => ?_, fun hlt i hi k hk => ?_⟩
  · have heq : s'.capacity = s.capacity := hcapacity ▸ heq
    obtain ⟨haddress, hcells⟩ := h.in_place heq
    have hregion : s'.region = s.region := by
      funext i
      unfold region
      rw [haddress, h.stride_eq]
    refine ⟨h'.place.address_eq.trans haddress, fun a ha => ?_⟩
    rw [h'.cellAt_eq a, hcells a ha]
    intro i hi hw
    rw [hregion]
    exact ha i (heq ▸ hi) (hsame heq i (heq ▸ hi) hw)
  · have hlt : s.capacity < s'.capacity := hcapacity ▸ hlt
    rw [h'.place.region_eq, h'.cellAt_eq, h.carried hlt i hi k hk]
    -- The byte is one of an old slot, so no new slot has it.
    intro j _ hw
    have hij : i ≠ j := Nat.ne_of_lt (Nat.lt_of_lt_of_le hi (hnew hlt j hw))
    refine (s'.region_apart_of_ne hij).not_covers ⟨Nat.le_add_right _ _, ?_⟩
    show _ < (s'.region i).base + s'.stride
    rw [h.stride_eq]
    omega

/-- A request for slots changes none of them. -/
theorem Reserved.follows {heap heap' : Heap} (hreserved : s.Reserved requested heap s' heap')
    (h : s.Ready) (bounds : heap.placement.InBounds) : Follows written requested s s' := by
  have hready' := hreserved.ready h bounds
  have hstride := hreserved.stride_eq
  cases hreserved with
  | enough _ => exact .refl s
  | grown base new hlt hvalid hgrant =>
    have hless : s.capacity < Slots.grown requested := Nat.lt_of_lt_of_le hlt (le_grown _)
    have hcapacity := capacity_regrown s new (Slots.grown requested)
    have hle : s.capacity * s.stride ≤ Slots.grown requested * s.stride :=
      Nat.mul_le_mul_right _ (Nat.le_of_lt hless)
    refine ⟨hstride, align_regrown _ _ _, ?_, fun _ => hlt, fun heq => ?_, fun _ i hi k hk => ?_⟩
    · rw [hcapacity]
      exact Nat.le_of_lt hless
    · rw [hcapacity] at heq
      omega
    · have hslot : i * s.stride + s.stride ≤ s.capacity * s.stride := mul_stride_add_le hi
      have hoffset : i * s.stride + k < s.capacity * s.stride := by omega
      show cellAt _ (_ + i * _ + k) = s.cellAt (s.address + i * s.stride + k)
      rw [hstride, Nat.add_assoc, Nat.add_assoc, h.cellAt_eq hoffset, hready'.cellAt_eq,
        peek_regrown hle (hgrant.placed hvalid bounds).1 hoffset h]
      rw [hcapacity, hstride]
      omega

end Slots

/-! ## Walks -/

namespace Walk

variable {α ε ν : Type} [Element α] {s : Slots}

theorem visitInPlace_rewrites (visitor : Prog ε (α × ν) Unit) (h : s.Ready)
    (hsize : Element.size α ≤ s.stride) {i : Nat} (hi : i < s.capacity) (n : ν) :
    (visitInPlace (fun slots => slots.offset i) visitor).Ends (s, n)
      (fun _ s' => Slots.Rewrites (· = i) s s'.1) (fun _ s' => Slots.Rewrites (· = i) s s'.1) := by
  cases hvisit : visitor (s.load (i * s.stride), n) with
  | ok _ t =>
    have hrun : visitInPlace (fun slots => slots.offset i) visitor (s, n) =
        .ok () (s.store (i * s.stride) t.1, t.2) := by
      simp only [visitInPlace, h.offset_eq hi, hvisit]
    exact Prog.Ends.of_ok hrun (Slots.rewrites_store h hi hsize t.1)
  | error e t =>
    have hrun : visitInPlace (fun slots => slots.offset i) visitor (s, n) =
        .error e (s.store (i * s.stride) t.1, t.2) := by
      simp only [visitInPlace, h.offset_eq hi, hvisit]
    exact Prog.Ends.of_error hrun (Slots.rewrites_store h hi hsize t.1)

/-- **A walk in place** writes to the slots that it visits. -/
theorem visitSlots_rewrites (visitor : Nat → Prog ε (α × ν) Unit) {indices : List Nat} (h : s.Ready)
    (hsize : Element.size α ≤ s.stride) (hindices : ∀ i ∈ indices, i < s.capacity) (n : ν) :
    (visitAllInPlace Slots.offset visitor indices).Ends (s, n)
      (fun _ s' => Slots.Rewrites (· ∈ indices) s s'.1)
      (fun _ s' => Slots.Rewrites (· ∈ indices) s s'.1) := by
  induction indices generalizing s n with
  | nil => exact Prog.Ends.pure (.refl h)
  | cons i rest ih =>
    have hhead : ∀ j, j = i → j ∈ i :: rest := by simp
    have htail : ∀ j, j ∈ rest → j ∈ i :: rest := fun j => List.mem_cons_of_mem i
    unfold visitAllInPlace
    apply (visitInPlace_rewrites (visitor i) h hsize (hindices i List.mem_cons_self) n).bind
    · rintro _ ⟨s₁, n₁⟩ hfirst
      have hrest : ∀ j ∈ rest, j < s₁.capacity := fun j hj => by
        rw [hfirst.place.capacity_eq]
        exact hindices j (htail j hj)
      apply (ih hfirst.ready (hfirst.place.stride_eq.symm ▸ hsize) hrest n₁).mono
      · exact fun _ _ hothers => (hfirst.mono hhead).trans (hothers.mono htail)
      · exact fun _ _ hothers => (hfirst.mono hhead).trans (hothers.mono htail)
    · exact fun _ _ hfirst => hfirst.mono hhead

end Walk

end AlignedSlots
