import Mathlib
import AlignedSlots.Container.Sequence
import AlignedSlots.Proofs.Container.SlotGrowth
import AlignedSlots.Proofs.Memory.Rounding

/-!
# Sound sequences

`Sequence.Sound` is what every operation of a sequence relies on and keeps.  The elements of a sound
sequence are the first items of its slots.  An operation leaves a sequence in one of two ways:

* `Sequence.Grown` says that room was made and nothing else.  That is the only part of an operation that
  asks the heap for something, and the only one that may be denied; `Sequence.Denied` then says why.
* `Sequence.Rewritten` says that another list is held in the same slots.
-/

namespace AlignedSlots

namespace Sequence

variable {α : Type}

/-! ## Sound sequences -/

section Sound

variable [Element α]

/-- What the operations of a sequence rely on. -/
structure Sound (v : Sequence α) : Prop where
  ready : v.slots.Ready
  stride_eq : v.slots.stride = Layout.roundUp (max (Element.size α) 1) (Element.align α)
  align_eq : v.slots.align = blockAlign α
  length_le : v.length ≤ v.slots.capacity

variable {v v' : Sequence α} {l : List α} {host : Host} {i : Nat} {x : α}

@[simp] theorem length_toList (v : Sequence α) : v.toList.length = v.length := by
  simp [toList]

/-- The second sequence holds a list in the slots of the first one. -/
structure Rewritten (v v' : Sequence α) (l : List α) : Prop where
  sound : v'.Sound
  place : Slots.SamePlace v.slots v'.slots
  toList_eq : v'.toList = l

theorem Rewritten.trans {v'' : Sequence α} {l' : List α} (h : Rewritten v v' l)
    (h' : Rewritten v' v'' l') : Rewritten v v'' l' :=
  ⟨h'.sound, h.place.trans h'.place, h'.toList_eq⟩

theorem Rewritten.length_eq (h : Rewritten v v' l) : v'.length = l.length := by
  rw [← h.toList_eq, length_toList]

variable [LawfulElement α]

theorem Sound.size_le (h : v.Sound) : Element.size α ≤ v.slots.stride := by
  rw [h.stride_eq]
  exact Nat.le_trans (Nat.le_max_left _ 1) (Layout.le_roundUp (Element.align_pos α))

/-- Elements lie next to one another, unless they take no cells. -/
theorem Sound.packed (h : v.Sound) : Element.size α = 0 ∨ v.slots.stride = Element.size α := by
  rcases Nat.eq_zero_or_pos (Element.size α) with hzero | hpos
  · exact .inl hzero
  · have hmax : max (Element.size α) 1 = Element.size α := Nat.max_eq_left hpos
    right
    rw [h.stride_eq, hmax]
    exact Layout.roundUp_of_dvd (Element.align_pos α) LawfulElement.align_dvd_size

theorem Sound.reaches (h : v.Sound) (hi : i < v.slots.capacity) :
    v.slots.Reaches α i (i * Element.size α) :=
  h.ready.reaches_packed hi h.packed

/-- Reading the elements as they lie in memory reads the slots. -/
theorem Sound.peek_eq (h : v.Sound) : v.peek = v.slots.item := by
  funext i
  rcases h.packed with hzero | heq
  · have : Subsingleton α := LawfulElement.subsingleton hzero
    exact Subsingleton.elim _ _
  · unfold peek Slots.item
    rw [heq]

theorem Sound.toList_eq (h : v.Sound) : v.toList = (List.range v.length).map v.slots.item := by
  unfold toList
  rw [h.peek_eq]

theorem Sound.getElem_toList (h : v.Sound) (hi : i < v.length) :
    v.toList[i]? = some (v.slots.item i) := by
  rw [h.toList_eq]
  simp [hi]

/-- A new sequence. -/
theorem sound_of_empty (hempty : Sequence.empty α = .ok v) : v.Sound ∧ v.toList = [] := by
  unfold Sequence.empty at hempty
  cases hstride : Slots.strideOf (Element.size α) (Element.align α) with
  | error e =>
    rw [hstride] at hempty
    cases hempty
  | ok stride =>
    rw [hstride] at hempty
    cases hempty
    have heq := Word.eq_of_roundUp_eq_ok LawfulElement.align_isPowerOfTwo hstride
    have hle : Nat.succ 0 ≤ max (Element.size α) 1 := Nat.le_max_right _ 1
    have hpos : 0 < stride := by
      rw [heq]
      exact Nat.lt_of_lt_of_le hle (Layout.le_roundUp (Element.align_pos α))
    exact ⟨⟨⟨nofun, hpos, fun _ => rfl, nofun⟩, heq, rfl, Nat.le_refl 0⟩, rfl⟩

/-- Slots in the same place are again those of a sound sequence. -/
theorem Sound.rewritten (h : v.Sound) {slots : Slots} {length : Nat}
    (hplace : Slots.SamePlace v.slots slots) (hready : slots.Ready) (hle : length ≤ v.slots.capacity) :
    Rewritten v ⟨slots, length⟩ ((List.range length).map slots.item) := by
  have hsound : (⟨slots, length⟩ : Sequence α).Sound :=
    ⟨hready, hplace.stride_eq.trans h.stride_eq, hplace.align_eq.trans h.align_eq,
      Nat.le_trans hle (Nat.le_of_eq hplace.capacity_eq.symm)⟩
  exact ⟨hsound, hplace, hsound.toList_eq⟩

end Sound

/-! ## Making room -/

section Room

variable {v v' : Sequence α} {requested : Nat} {heap heap' : Heap}

/-- The second sequence is the first one with room for `requested` elements. -/
structure Grown (v : Sequence α) (requested : Nat) (heap : Heap) (v' : Sequence α) (heap' : Heap) :
    Prop where
  length_eq : v'.length = v.length
  reserved : v.slots.Reserved requested heap v'.slots heap'

/-- There is no room for `requested` elements, and none can be made. -/
def Denied (v : Sequence α) (requested : Nat) (heap heap' : Heap) (e : Failure ContainerError) : Prop :=
  v.slots.capacity < requested ∧
    ∃ r, e = r.map .ofAlloc ∧ v.slots.Denied requested heap heap' r

/-- Without room, there is at most the error of the allocator or its assertion. -/
theorem Denied.cases {e : Failure ContainerError} (h : v.Denied requested heap heap' e) :
    e = .error .badAlloc ∨
      ¬ ValidAlign v.slots.align ∧ e = .fault (.blockAlignment v.slots.align greatestAlign) := by
  obtain ⟨_, r, rfl, hdenied⟩ := h
  cases hdenied with
  | refused _ _ => exact .inl rfl
  | oversized _ _ => exact .inl rfl
  | misaligned hinvalid _ => exact .inr ⟨hinvalid, rfl⟩

/-- Where there is room already, the sequence stays as it is. -/
theorem Grown.eq_self (h : v.Grown requested heap v' heap') (hroom : requested ≤ v.slots.capacity) :
    v' = v ∧ heap' = heap := by
  obtain ⟨slots, length⟩ := v'
  obtain ⟨rfl, hreserved⟩ := h
  generalize hslots : slots = slots' at hreserved
  cases hreserved with
  | enough _ =>
    subst hslots
    exact ⟨rfl, rfl⟩
  | grown _ _ hlt _ _ => exact absurd hroom (Nat.not_le.mpr hlt)

variable [Element α] [LawfulElement α]

theorem Grown.sound (hgrown : v.Grown requested heap v' heap') (h : v.Sound)
    (bounds : heap.placement.InBounds) : v'.Sound ∧ v'.toList = v.toList := by
  have hready := hgrown.reserved.ready h.ready bounds
  have hsound : v'.Sound := by
    refine ⟨hready, ?_, ?_, ?_⟩
    · rw [hgrown.reserved.stride_eq, h.stride_eq]
    · rw [hgrown.reserved.align_eq, h.align_eq]
    · rw [hgrown.length_eq]
      exact Nat.le_trans h.length_le hgrown.reserved.capacity_le
  refine ⟨hsound, ?_⟩
  rw [hsound.toList_eq, h.toList_eq, hgrown.length_eq]
  apply Slots.map_range_congr
  intro j hj
  exact hgrown.reserved.item_eq h.ready bounds h.size_le (Nat.lt_of_lt_of_le hj h.length_le)

end Room

end Sequence

end AlignedSlots
