import Mathlib
import AlignedSlots.Proofs.Memory.Placing

/-!
# Slots as a row of elements

`Slots.Ready` says that the block of a row of slots is a placed block with room for all of them, and
that there is no block exactly while there are no slots.  Every container keeps it.  On ready slots
`Slots.item` reads the row as a function of the index, and what the operations of slots do is said on
that function: a store is an update at one index, a move shifts a range of indices.
-/

namespace AlignedSlots

/-- A value that takes no cells says nothing. -/
theorem LawfulElement.subsingleton {α : Type} [Element α] [LawfulElement α]
    (h : Element.size α = 0) : Subsingleton α := by
  refine ⟨fun x y => ?_⟩
  rw [← LawfulElement.decode_encode x, ← LawfulElement.decode_encode y]
  refine LawfulElement.decode_congr _ _ fun i hi => ?_
  rw [h] at hi
  exact absurd hi (Nat.not_lt_zero i)

namespace Slots

/-- Slots as their containers rely on them. -/
structure Ready (s : Slots) : Prop where
  valid : 0 < s.capacity → ValidAlign s.align
  stride_pos : 0 < s.stride
  unallocated : s.block = none → s.capacity = 0
  placed : ∀ b, s.block = some b → 0 < s.capacity ∧ b.Placed s.align (s.capacity * s.stride)

/-- Where the raw block starts. -/
def base (s : Slots) : Option Nat := s.block.map fun b => b.raw.base

/-- The second slots are where the first ones are.  What they hold may be different. -/
structure SamePlace (s s' : Slots) : Prop where
  capacity_eq : s'.capacity = s.capacity
  stride_eq : s'.stride = s.stride
  align_eq : s'.align = s.align
  base_eq : s'.base = s.base
  address_eq : s'.address = s.address

theorem SamePlace.refl (s : Slots) : SamePlace s s := ⟨rfl, rfl, rfl, rfl, rfl⟩

theorem SamePlace.trans {s s' s'' : Slots} (h : SamePlace s s') (h' : SamePlace s' s'') :
    SamePlace s s'' :=
  ⟨h'.capacity_eq.trans h.capacity_eq, h'.stride_eq.trans h.stride_eq,
    h'.align_eq.trans h.align_eq, h'.base_eq.trans h.base_eq, h'.address_eq.trans h.address_eq⟩

/-- The element in slot `i`. -/
def item {α : Type} [Element α] (s : Slots) (i : Nat) : α := s.load (i * s.stride)

/-! ## Rows as lists -/

section Rows

variable {α : Type} {row row' : Nat → α} {n i : Nat} {x : α}

theorem map_range_congr (h : ∀ j < n, row' j = row j) :
    (List.range n).map row' = (List.range n).map row := by
  apply List.map_congr_left
  intro j hj
  exact h j (List.mem_range.mp hj)

theorem map_range_update (row : Nat → α) (n i : Nat) (x : α) :
    (List.range n).map (Function.update row i x) = ((List.range n).map row).set i x := by
  apply List.ext_getElem
  · simp
  · intro j hj _
    simp only [List.getElem_map, List.getElem_range, List.getElem_set]
    by_cases hij : i = j
    · rw [if_pos hij, hij, Function.update_self]
    · rw [if_neg hij, Function.update_of_ne (Ne.symm hij)]

/-- A row with an element put in at `i`. -/
theorem map_range_insertIdx (hi : i ≤ n) (hbelow : ∀ j < i, row' j = row j) (hat : row' i = x)
    (habove : ∀ j, i ≤ j → j < n → row' (j + 1) = row j) :
    (List.range (n + 1)).map row' = ((List.range n).map row).insertIdx i x := by
  apply List.ext_getElem
  · simp [List.length_insertIdx, hi]
  · intro j hj _
    simp only [List.length_map, List.length_range] at hj
    simp only [List.getElem_map, List.getElem_range, List.getElem_insertIdx]
    rcases Nat.lt_trichotomy j i with hlt | heq | hgt
    · rw [dif_pos hlt, hbelow j hlt]
    · rw [dif_neg (by omega), dif_pos heq, heq, hat]
    · obtain ⟨k, rfl⟩ : ∃ k, j = k + 1 := ⟨j - 1, by omega⟩
      rw [dif_neg (by omega), dif_neg (by omega), habove k (by omega) (by omega)]
      rfl

/-- A row with the element at `i` taken away. -/
theorem map_range_eraseIdx (hi : i < n) (hbelow : ∀ j < i, row' j = row j)
    (habove : ∀ j, i ≤ j → j + 1 < n → row' j = row (j + 1)) :
    (List.range (n - 1)).map row' = ((List.range n).map row).eraseIdx i := by
  apply List.ext_getElem
  · simp [List.length_eraseIdx, hi]
  · intro j hj _
    simp only [List.length_map, List.length_range] at hj
    simp only [List.getElem_map, List.getElem_range, List.getElem_eraseIdx]
    by_cases hlt : j < i
    · rw [dif_pos hlt, hbelow j hlt]
    · rw [dif_neg hlt, habove j (by omega) (by omega)]

/-- A row that goes on with one element. -/
theorem map_range_append_replicate {m : Nat} (hle : m ≤ n) (hbelow : ∀ j < m, row' j = row j)
    (habove : ∀ j, m ≤ j → j < n → row' j = x) :
    (List.range n).map row' = (List.range m).map row ++ List.replicate (n - m) x := by
  apply List.ext_getElem
  · simp [hle]
  · intro j hj _
    simp only [List.length_map, List.length_range] at hj
    simp only [List.getElem_map, List.getElem_range, List.getElem_append, List.length_map,
      List.length_range, List.getElem_replicate]
    by_cases hlt : j < m
    · rw [dif_pos hlt, hbelow j hlt]
    · rw [dif_neg hlt, habove j (by omega) hj]

/-- A row of which only the first elements are other ones. -/
theorem map_range_append_drop {m : Nat} (hle : m ≤ n)
    (habove : ∀ j, m ≤ j → j < n → row' j = row j) :
    (List.range n).map row' = (List.range m).map row' ++ ((List.range n).map row).drop m := by
  apply List.ext_getElem
  · simp [hle]
  · intro j hj _
    simp only [List.length_map, List.length_range] at hj
    simp only [List.getElem_map, List.getElem_range, List.getElem_append, List.length_map,
      List.length_range, List.getElem_drop]
    by_cases hlt : j < m
    · rw [dif_pos hlt]
    · rw [dif_neg hlt, habove j (by omega) hj, Nat.add_sub_cancel' (Nat.le_of_not_lt hlt)]

end Rows

/-! ## Where slots lie -/

section Bounds

variable {s : Slots} {i : Nat}

theorem mul_stride_add_le {i capacity stride : Nat} (h : i < capacity) :
    i * stride + stride ≤ capacity * stride := by
  have hle : (i + 1) * stride ≤ capacity * stride := Nat.mul_le_mul_right _ h
  rwa [Nat.add_one_mul] at hle

theorem mul_stride_add_le_mul {i j stride : Nat} (h : i < j) : i * stride + stride ≤ j * stride :=
  mul_stride_add_le h

theorem Ready.holds (h : s.Ready) (hpos : 0 < s.capacity) : s.Holds (s.capacity * s.stride) := by
  cases hb : s.block with
  | none =>
    have := h.unallocated hb
    omega
  | some b => exact ⟨b, hb, (h.placed b hb).2.fits⟩

/-- Slots start at a multiple of their alignment. -/
theorem Ready.aligned (h : s.Ready) (hpos : 0 < s.capacity) : s.align ∣ s.address := by
  obtain ⟨b, hb, _⟩ := h.holds hpos
  have haddress : s.address = b.address := by
    unfold address
    rw [hb]
  rw [haddress]
  exact (h.placed b hb).2.aligned

theorem Ready.holds_of_lt {α : Type} [Element α] (h : s.Ready) (hi : i < s.capacity)
    (hsize : Element.size α ≤ s.stride) : s.Holds (i * s.stride + Element.size α) := by
  obtain ⟨b, hb, hfits⟩ := h.holds (Nat.zero_lt_of_lt hi)
  have hslot : i * s.stride + s.stride ≤ s.capacity * s.stride := mul_stride_add_le hi
  exact ⟨b, hb, by omega⟩

/-- The bytes of all slots can be counted, and the distance in front of them leaves room for one
more. -/
theorem Ready.size_lt (h : s.Ready) : s.capacity * s.stride < Word.greatest := by
  cases hb : s.block with
  | none =>
    rw [h.unallocated hb, Nat.zero_mul]
    decide
  | some b =>
    obtain ⟨_, hplaced⟩ := h.placed b hb
    have hfits := hplaced.fits
    have hbounded := hplaced.bounded
    have hroom : 2 ≤ b.start := hplaced.room
    have hword : Word.greatest = 2 ^ 64 - 1 := rfl
    have hwidth : Word.width = 64 := rfl
    rw [hwidth] at hbounded
    omega

theorem Ready.size_le (h : s.Ready) : s.capacity * s.stride ≤ Word.greatest := Nat.le_of_lt h.size_lt

theorem Ready.capacity_lt (h : s.Ready) : s.capacity < Word.greatest :=
  Nat.lt_of_le_of_lt (Nat.le_mul_of_pos_right _ h.stride_pos) h.size_lt

theorem Ready.capacity_le (h : s.Ready) : s.capacity ≤ Word.greatest := Nat.le_of_lt h.capacity_lt

theorem Ready.offset_eq (h : s.Ready) (hi : i < s.capacity) : s.offset i = .ok (i * s.stride) := by
  have hslot : i * s.stride + s.stride ≤ s.capacity * s.stride := mul_stride_add_le hi
  have hsize := h.size_le
  unfold offset
  rw [if_pos hi, Word.mul_eq_ok (by omega)]

/-- The element in a slot is read, if there is that slot. -/
theorem Ready.read_eq (h : s.Ready) (α : Type) [Element α] (i : Nat) :
    (do let offset ← s.offset i; return s.load offset : Except Fault α) =
      if i < s.capacity then .ok (s.item i) else .error (.slotRange i s.capacity) := by
  by_cases hi : i < s.capacity
  · rw [h.offset_eq hi, if_pos hi]
    rfl
  · have hoffset : s.offset i = .error (.slotRange i s.capacity) := if_neg hi
    rw [hoffset, if_neg hi]
    rfl

theorem locate_eq {ε : Type} (h : s.Ready) (hi : i < s.capacity) (host : Host) :
    (locate i : Hosted ε Slots Nat) (s, host) = .ok (i * s.stride) (s, host) := by
  unfold locate
  simp only [h.offset_eq hi]

end Bounds

/-! ## Storing into slots -/

section Store

variable {α : Type} [Element α] {s : Slots} {i : Nat}

theorem Ready.mapBlock (h : s.Ready) {f : Parcel → Parcel}
    (hf : ∀ b align size, b.Placed align size → (f b).Placed align size) : (s.mapBlock f).Ready := by
  rcases s with ⟨block | block, capacity, stride, align⟩
  · exact ⟨h.valid, h.stride_pos, h.unallocated, nofun⟩
  · refine ⟨h.valid, h.stride_pos, nofun, ?_⟩
    intro b hb
    cases hb
    obtain ⟨hpos, hplaced⟩ := h.placed block rfl
    exact ⟨hpos, hf _ _ _ hplaced⟩

theorem samePlace_mapBlock (s : Slots) {f : Parcel → Parcel} (hbase : ∀ b, (f b).raw.base = b.raw.base)
    (hstart : ∀ b, (f b).start = b.start) : SamePlace s (s.mapBlock f) := by
  rcases s with ⟨block | block, capacity, stride, align⟩
  · exact .refl _
  · refine ⟨rfl, rfl, rfl, congrArg some (hbase block), ?_⟩
    show (f block).raw.base + (f block).start = block.raw.base + block.start
    rw [hbase, hstart]

theorem samePlace_store (s : Slots) (offset : Nat) (x : α) : SamePlace s (s.store offset x) :=
  samePlace_mapBlock s (fun b => Parcel.base_overwrite b _ _ _) fun b => Parcel.start_overwrite b _ _ _

theorem samePlace_move (s : Slots) (source target count : Nat) :
    SamePlace s (s.move source target count) :=
  samePlace_mapBlock s (fun _ => Parcel.base_mapCells _ _) fun _ => Parcel.start_mapCells _ _

theorem Ready.store (h : s.Ready) (offset : Nat) (x : α) : (s.store offset x).Ready :=
  h.mapBlock fun _ _ _ hb => hb.overwrite _ _ _

theorem Ready.move (h : s.Ready) (source target count : Nat) : (s.move source target count).Ready :=
  h.mapBlock fun _ _ _ hb => hb.move _ _ _

/-- A store is an update at one index. -/
theorem item_store [LawfulElement α] (h : s.Ready) (hi : i < s.capacity)
    (hsize : Element.size α ≤ s.stride) (x : α) :
    (s.store (i * s.stride) x).item = Function.update (s.item (α := α)) i x := by
  funext j
  unfold item
  rw [stride_store]
  by_cases hj : j = i
  · subst hj
    rw [Function.update_self]
    exact load_store_self x (h.holds_of_lt hi hsize)
  · rw [Function.update_of_ne hj]
    apply load_store_of_disjoint
    rcases Nat.lt_or_gt_of_ne hj with hlt | hgt
    · left
      have : j * s.stride + s.stride ≤ i * s.stride := mul_stride_add_le_mul hlt
      omega
    · right
      have : i * s.stride + s.stride ≤ j * s.stride := mul_stride_add_le_mul hgt
      omega

/-- Slots whose first cells agree hold the same elements there. -/
theorem item_congr [LawfulElement α] {t : Slots} (hstride : t.stride = s.stride) {n : Nat}
    (hsize : Element.size α ≤ s.stride) (hcells : ∀ k < n * s.stride, t.peek k = s.peek k)
    (hi : i < n) : (t.item i : α) = s.item i := by
  have hslot : i * s.stride + s.stride ≤ n * s.stride := mul_stride_add_le hi
  unfold item load
  rw [hstride]
  exact LawfulElement.decode_congr _ _ fun k hk => hcells _ (by omega)

/-- A cell after a move inside the slots. -/
theorem Ready.peek_move (h : s.Ready) {source target count : Nat}
    (hs : source + count ≤ s.capacity * s.stride) (ht : target + count ≤ s.capacity * s.stride)
    (k : Nat) :
    (s.move source target count).peek k =
      if target ≤ k ∧ k < target + count then s.peek (source + (k - target)) else s.peek k := by
  cases hb : s.block with
  | none =>
    -- Without a block there are no slots, and nothing moves.
    rw [h.unallocated hb, Nat.zero_mul] at ht
    rw [if_neg (by omega)]
    obtain ⟨block, capacity, stride, align⟩ := s
    cases hb
    rfl
  | some b =>
    have hfits := (h.placed b hb).2.fits
    obtain ⟨block, capacity, stride, align⟩ := s
    cases hb
    exact Parcel.peek_move (by omega) (by omega) k

/-- A move of whole slots shifts a range of indices. -/
theorem item_move [LawfulElement α] (h : s.Ready) (hsize : Element.size α ≤ s.stride)
    {source target count : Nat} (hs : source + count ≤ s.capacity) (ht : target + count ≤ s.capacity)
    (j : Nat) :
    ((s.move (source * s.stride) (target * s.stride) (count * s.stride)).item j : α) =
      if target ≤ j ∧ j < target + count then s.item (source + (j - target)) else s.item j := by
  have hsource : source * s.stride + count * s.stride ≤ s.capacity * s.stride := by
    rw [← Nat.add_mul]
    exact Nat.mul_le_mul_right _ hs
  have htarget : target * s.stride + count * s.stride ≤ s.capacity * s.stride := by
    rw [← Nat.add_mul]
    exact Nat.mul_le_mul_right _ ht
  have hpeek := h.peek_move hsource htarget
  unfold item load
  rw [(samePlace_move s _ _ _).stride_eq]
  split
  · next inside =>
    refine LawfulElement.decode_congr _ _ fun k hk => ?_
    have hlow : target * s.stride ≤ j * s.stride := Nat.mul_le_mul_right _ inside.1
    have hhigh : j * s.stride + s.stride ≤ (target + count) * s.stride :=
      mul_stride_add_le inside.2
    have hshift : (source + (j - target)) * s.stride =
        source * s.stride + (j * s.stride - target * s.stride) := by
      rw [Nat.add_mul, Nat.sub_mul]
    rw [Nat.add_mul] at hhigh
    rw [hpeek, if_pos (by omega), hshift]
    congr 1
    omega
  · next outside =>
    -- The cells of the slot lie all before the target or all behind it.
    refine LawfulElement.decode_congr _ _ fun k hk => ?_
    have hcases : j < target ∨ target + count ≤ j := by omega
    rw [hpeek, if_neg]
    rcases hcases with hlt | hge
    · have : j * s.stride + s.stride ≤ target * s.stride := mul_stride_add_le_mul hlt
      omega
    · have : (target + count) * s.stride ≤ j * s.stride := Nat.mul_le_mul_right _ hge
      rw [Nat.add_mul] at this
      omega

/-- Element `i` is read and written at the offset. -/
structure Reaches (α : Type) [Element α] (s : Slots) (i offset : Nat) : Prop where
  load_eq : s.load offset = (s.item i : α)
  item_store : ∀ x : α, (s.store offset x).item = Function.update (s.item (α := α)) i x

theorem Ready.reaches [LawfulElement α] (h : s.Ready) (hi : i < s.capacity)
    (hsize : Element.size α ≤ s.stride) : Reaches α s i (i * s.stride) := by
  refine ⟨?_, fun x => item_store h hi hsize x⟩
  unfold item
  rfl

/-- Without a gap between the elements, or with elements that take no cells, element `i` is as far from
the start as its predecessors are long. -/
theorem Ready.reaches_packed [LawfulElement α] (h : s.Ready) (hi : i < s.capacity)
    (hpacked : Element.size α = 0 ∨ s.stride = Element.size α) :
    Reaches α s i (i * Element.size α) := by
  rcases hpacked with hzero | heq
  · have : Subsingleton α := LawfulElement.subsingleton hzero
    exact ⟨Subsingleton.elim _ _, fun x => Subsingleton.elim _ _⟩
  · rw [← heq]
    exact h.reaches hi (Nat.le_of_eq heq.symm)

end Store

-- Unfolded, an element is decoded cell by cell: what is proved of a row never needs that.
attribute [irreducible] item

end Slots

end AlignedSlots
