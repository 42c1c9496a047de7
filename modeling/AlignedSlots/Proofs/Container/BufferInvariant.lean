import Mathlib
import AlignedSlots.Container.Buffer
import AlignedSlots.Proofs.Container.SlotFilling
import AlignedSlots.Proofs.Memory.Rounding

/-!
# Buffers as windows

A `Window` is a list of slots of which the first ones are visible.  `Buffer.Holds` says that a buffer
holds a window, hidden slots included; it is what every operation of a buffer relies on and keeps.

Room is made as for sequences: `Buffer.Grown` is the only part of an operation that asks the heap for
something, and `Buffer.Denied` says why there is none.
-/

namespace AlignedSlots

/-- Slots, and how many of them are visible. -/
@[ext] structure Window (α : Type) where
  slots : List α
  limit : Nat
  limit_le : limit ≤ slots.length

namespace Window

variable {α : Type}

/-- No slots. -/
def empty : Window α := ⟨[], 0, Nat.le_refl 0⟩

/-- The elements of the visible slots. -/
def visible (w : Window α) : List α := w.slots.take w.limit

/-- Sets how many slots are visible, at most all of them. -/
def setLimit (w : Window α) (limit : Nat) : Window α :=
  ⟨w.slots, min limit w.slots.length, Nat.min_le_right _ _⟩

/-- Puts an element into a slot. -/
def set (w : Window α) (i : Nat) (x : α) : Window α :=
  ⟨w.slots.set i x, w.limit, by rw [List.length_set]; exact w.limit_le⟩

/-- Puts elements into the first slots. -/
def overwrite (w : Window α) (front : List α) : Window α :=
  ⟨front ++ w.slots.drop front.length, w.limit, by
    rw [List.length_append, List.length_drop]
    have := w.limit_le
    omega⟩

section Growth

variable [Initial α]

/-- Makes room for a number of slots, by the growth policy.  The slots that are there stay as they are,
visible or not, and the new ones hold the initial value. -/
def reserve (w : Window α) (requested : Nat) : Window α :=
  if requested ≤ w.slots.length then w
  else
    ⟨w.slots ++ List.replicate (Slots.grown requested - w.slots.length) Initial.initial, w.limit, by
      rw [List.length_append]
      exact Nat.le_trans w.limit_le (Nat.le_add_right _ _)⟩

theorem reserve_of_le {w : Window α} {requested : Nat} (h : requested ≤ w.slots.length) :
    w.reserve requested = w := if_pos h

theorem slots_reserve_of_lt {w : Window α} {requested : Nat} (h : w.slots.length < requested) :
    (w.reserve requested).slots =
      w.slots ++ List.replicate (Slots.grown requested - w.slots.length) Initial.initial := by
  unfold reserve
  rw [if_neg (Nat.not_le.mpr h)]

@[simp] theorem limit_reserve (w : Window α) (requested : Nat) :
    (w.reserve requested).limit = w.limit := by
  unfold reserve
  split <;> rfl

theorem le_length_reserve (w : Window α) (requested : Nat) :
    requested ≤ (w.reserve requested).slots.length := by
  rcases Nat.lt_or_ge w.slots.length requested with hlt | hle
  · have := Slots.le_grown requested
    rw [slots_reserve_of_lt hlt, List.length_append, List.length_replicate]
    omega
  · rw [reserve_of_le hle]
    exact hle

/-- Shows one more slot, which is made if there is none. -/
def expose (w : Window α) : Window α :=
  ⟨(w.reserve (w.limit + 1)).slots, w.limit + 1, w.le_length_reserve _⟩

/-- What a slot holds, or what it will hold when it is made. -/
def held (w : Window α) (i : Nat) : α := w.slots.getD i Initial.initial

end Growth

variable (w : Window α) {i : Nat}

@[simp] theorem length_visible : w.visible.length = w.limit := by
  rw [visible, List.length_take, Nat.min_eq_left w.limit_le]

theorem getElem?_visible (h : i < w.limit) : w.visible[i]? = w.slots[i]? :=
  List.getElem?_take_of_lt h

theorem getElem?_visible_eq_none (h : w.limit ≤ i) : w.visible[i]? = none :=
  List.getElem?_eq_none (by rwa [length_visible])

/-- The last visible element. -/
theorem getLast?_visible {n : Nat} (h : w.limit = n + 1) :
    w.visible.getLast? = w.visible[n]? := by
  rw [List.getLast?_eq_getElem?, length_visible, h, Nat.add_sub_cancel]

/-- Room is made without changing a slot. -/
theorem getElem?_reserve_of_lt [Initial α] {requested : Nat} (hi : i < w.slots.length) :
    (w.reserve requested).slots[i]? = w.slots[i]? := by
  rcases Nat.lt_or_ge w.slots.length requested with hlt | hle
  · rw [slots_reserve_of_lt hlt, List.getElem?_append_left hi]
  · rw [reserve_of_le hle]

/-- Hidden slots stay as they are where the visible ones are overwritten. -/
theorem getElem?_overwrite_of_le {front : List α} (hfront : front.length = w.visible.length)
    (hi : w.limit ≤ i) : (w.overwrite front).slots[i]? = w.slots[i]? := by
  rw [w.length_visible] at hfront
  show (front ++ w.slots.drop front.length)[i]? = _
  rw [List.getElem?_append_right (hfront ▸ hi), List.getElem?_drop, hfront, Nat.add_sub_cancel' hi]

/-- A slot that is made holds what it was said to hold. -/
theorem getElem?_reserve [Initial α] {requested : Nat} (hi : i < requested) :
    (w.reserve requested).slots[i]? = some (w.held i) := by
  unfold held
  rw [List.getD_eq_getElem?_getD]
  rcases Nat.lt_or_ge i w.slots.length with hold | hnew
  · rw [w.getElem?_reserve_of_lt hold, List.getElem?_eq_getElem hold]
    rfl
  · have hgrown := Slots.le_grown requested
    rw [slots_reserve_of_lt (Nat.lt_of_le_of_lt hnew hi), List.getElem?_append_right hnew,
      List.getElem?_replicate, if_pos (by omega), List.getElem?_eq_none hnew]
    rfl

/-- The slot that a window shows next keeps what it held. -/
theorem getElem?_expose [Initial α] : w.expose.slots[w.limit]? = some (w.held w.limit) :=
  w.getElem?_reserve (Nat.lt_succ_self w.limit)

end Window

namespace Buffer

variable {α : Type}

/-! ## Buffers that hold a window -/

section Holds

variable [Element α]

/-- The buffer holds the window, in slots with the alignment. -/
structure Holds (align : Nat) (b : Buffer α) (w : Window α) : Prop where
  ready : b.slots.Ready
  size_le : Element.size α ≤ b.slots.stride
  align_eq : b.slots.align = align
  slots_eq : (List.range b.slots.capacity).map b.slots.item = w.slots
  limit_eq : b.limit = w.limit

variable {align : Nat} {b : Buffer α} {w : Window α} {i : Nat}

theorem Holds.capacity_eq (h : b.Holds align w) : b.slots.capacity = w.slots.length := by
  rw [← h.slots_eq, List.length_map, List.length_range]

theorem Holds.limit_le (h : b.Holds align w) : b.limit ≤ b.slots.capacity := by
  rw [h.limit_eq, h.capacity_eq]
  exact w.limit_le

/-- The number of slots that showing one more asks for is a word. -/
theorem Holds.limit_lt (h : b.Holds align w) : b.limit + 1 ≤ Word.greatest := by
  have hlt := h.ready.capacity_lt
  have hle := h.limit_le
  omega

theorem Holds.getElem?_slots (h : b.Holds align w) (hi : i < b.slots.capacity) :
    w.slots[i]? = some (b.slots.item i) := by
  rw [← h.slots_eq]
  simp [hi]

/-- A visible slot. -/
theorem Holds.getElem?_visible (h : b.Holds align w) (hi : i < b.limit) :
    w.visible[i]? = some (b.slots.item i) := by
  rw [w.getElem?_visible (h.limit_eq ▸ hi)]
  exact h.getElem?_slots (Nat.lt_of_lt_of_le hi h.limit_le)

theorem Holds.reaches [LawfulElement α] (h : b.Holds align w) (hi : i < b.slots.capacity) :
    b.slots.Reaches α i (i * b.slots.stride) :=
  h.ready.reaches hi h.size_le

/-- Slots in the same place hold another window. -/
theorem Holds.rewritten (h : b.Holds align w) (w' : Window α) {slots : Slots}
    (hplace : Slots.SamePlace b.slots slots) (hready : slots.Ready)
    (hslots : (List.range b.slots.capacity).map slots.item = w'.slots) :
    Holds align ⟨slots, w'.limit⟩ w' := by
  refine ⟨hready, ?_, hplace.align_eq.trans h.align_eq, ?_, rfl⟩
  · rw [hplace.stride_eq]
    exact h.size_le
  · rw [hplace.capacity_eq]
    exact hslots

/-- Only the limit is another one. -/
theorem Holds.limited (h : b.Holds align w) {limit : Nat} (hle : limit ≤ w.slots.length) :
    Holds align ⟨b.slots, limit⟩ ⟨w.slots, limit, hle⟩ :=
  h.rewritten ⟨w.slots, limit, hle⟩ (.refl _) h.ready h.slots_eq

/-- A slot has another element. -/
theorem Holds.updated (h : b.Holds align w) {slots : Slots} (hplace : Slots.SamePlace b.slots slots)
    (hready : slots.Ready) {x : α} (hitem : slots.item = Function.update (b.slots.item (α := α)) i x) :
    Holds align ⟨slots, b.limit⟩ (w.set i x) := by
  rw [h.limit_eq]
  refine h.rewritten (w.set i x) hplace hready ?_
  rw [hitem, Slots.map_range_update, h.slots_eq]
  rfl

/-- The visible slots have other elements. -/
theorem Holds.overwritten (h : b.Holds align w) {slots : Slots}
    (hplace : Slots.SamePlace b.slots slots) (hready : slots.Ready)
    (hkept : ∀ j ∉ List.range b.limit, (slots.item j : α) = b.slots.item j) :
    Holds align ⟨slots, b.limit⟩ (w.overwrite ((List.range b.limit).map slots.item)) := by
  rw [h.limit_eq]
  refine h.rewritten (w.overwrite _) hplace hready ?_
  show _ = _ ++ w.slots.drop _
  rw [List.length_map, List.length_range, ← h.slots_eq, ← h.limit_eq]
  apply Slots.map_range_append_drop h.limit_le
  intro j hj _
  exact hkept j fun hmem => Nat.not_lt.mpr hj (List.mem_range.mp hmem)

/-- What a new buffer is made of. -/
theorem eq_of_empty {align : Nat} (hempty : Buffer.empty α align = .ok b) :
    ValidAlign align ∧
      ∃ stride, Slots.strideOf (Element.size α) (max align (Element.align α)) = .ok stride ∧
        b = ⟨Slots.empty stride (max align (Element.align α)), 0⟩ := by
  unfold Buffer.empty at hempty
  by_cases hvalid : ValidAlign align
  · rw [if_neg (not_not.mpr hvalid)] at hempty
    have hrun : (do
        let stride ← Slots.strideOf (Element.size α) (max align (Element.align α))
        return ⟨Slots.empty stride (max align (Element.align α)), 0⟩ : Except Fault (Buffer α)) =
      .ok b := hempty
    cases hstride : Slots.strideOf (Element.size α) (max align (Element.align α)) with
    | error e =>
      rw [hstride] at hrun
      cases hrun
    | ok stride =>
      rw [hstride] at hrun
      cases hrun
      exact ⟨hvalid, stride, rfl, rfl⟩
  · rw [if_pos hvalid] at hempty
    cases hempty

/-- A new buffer. -/
theorem holds_of_empty [LawfulElement α] {align : Nat} (hempty : Buffer.empty α align = .ok b) :
    b.Holds (max align (Element.align α)) Window.empty := by
  obtain ⟨valid, stride, hstride, rfl⟩ := eq_of_empty hempty
  have power := isPowerOfTwo_max valid.1 (LawfulElement.align_isPowerOfTwo (α := α))
  obtain ⟨hsize, hpos⟩ := Slots.room_of_strideOf power hstride
  exact ⟨⟨nofun, hpos, fun _ => rfl, nofun⟩, hsize, rfl, rfl, rfl⟩

end Holds

/-! ## Making room -/

section Room

variable {b b' : Buffer α} {requested : Nat} {heap heap' : Heap}

/-- The second buffer has room for `requested` slots, where the first one has its slots or in a new
block. -/
def Grown (b : Buffer α) (requested : Nat) (heap : Heap) (b' : Buffer α) (heap' : Heap) : Prop :=
  ∃ slots, b.slots.Reserved requested heap slots heap' ∧ Slots.SamePlace slots b'.slots

/-- There is no room for `requested` slots, and none can be made. -/
def Denied (b : Buffer α) (requested : Nat) (heap heap' : Heap) (e : Failure ContainerError) : Prop :=
  b.slots.capacity < requested ∧
    ∃ r, e = r.map .ofAlloc ∧ b.slots.Denied requested heap heap' r

/-- What a growth that is denied answers: the error of the allocator, or its assertion where the
alignment is not supported. -/
def GrowthFailure (align : Nat) (e : Failure ContainerError) : Prop :=
  e = .error .badAlloc ∨ ¬ ValidAlign align ∧ e = .fault (.blockAlignment align greatestAlign)

theorem Denied.failure {e : Failure ContainerError} (h : b.Denied requested heap heap' e) :
    GrowthFailure b.slots.align e := by
  obtain ⟨_, r, rfl, hdenied⟩ := h
  cases hdenied with
  | refused _ _ => exact .inl rfl
  | oversized _ _ => exact .inl rfl
  | misaligned hinvalid _ => exact .inr ⟨hinvalid, rfl⟩

theorem Grown.of_samePlace (h : Slots.SamePlace b.slots b'.slots) (heap : Heap) :
    b.Grown 0 heap b' heap :=
  ⟨b.slots, .enough (Nat.zero_le _), h⟩

theorem Grown.trans_samePlace {b'' : Buffer α} (h : b.Grown requested heap b' heap')
    (h' : Slots.SamePlace b'.slots b''.slots) : b.Grown requested heap b'' heap' := by
  obtain ⟨slots, hreserved, hplace⟩ := h
  exact ⟨slots, hreserved, hplace.trans h'⟩

theorem Grown.placement_eq (h : b.Grown requested heap b' heap') :
    heap'.placement = heap.placement := by
  obtain ⟨_, hreserved, _⟩ := h
  exact hreserved.placement_eq

end Room

end Buffer

end AlignedSlots
