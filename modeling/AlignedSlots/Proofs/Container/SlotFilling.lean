import Mathlib
import AlignedSlots.Proofs.Container.SlotGrowth
import AlignedSlots.Proofs.Container.WalkLaws

/-!
# Filling slots

Two ways to write into slots that have nothing to do with a visitor: one byte over a whole slot, padding
included, and the initial value in the slots that a growth has made.  `Slots.item_fill` and
`Slots.initialise_ends` say what they do to the row of elements.
-/

namespace AlignedSlots

namespace Slots

variable {α ε : Type} [Element α] {s : Slots}

theorem samePlace_fill (s : Slots) (offset count : Nat) (value : UInt8) :
    SamePlace s (s.fill offset count value) :=
  samePlace_mapBlock s (fun _ => Parcel.base_mapCells _ _) fun _ => Parcel.start_mapCells _ _

theorem Ready.fill (h : s.Ready) (offset count : Nat) (value : UInt8) :
    (s.fill offset count value).Ready :=
  h.mapBlock fun _ _ _ hb => hb.fill _ _ _

theorem Ready.peek_fill (h : s.Ready) {offset count : Nat} (hpos : 0 < s.capacity)
    (hfit : offset + count ≤ s.capacity * s.stride) (value : UInt8) (k : Nat) :
    (s.fill offset count value).peek k =
      if offset ≤ k ∧ k < offset + count then .byte value else s.peek k := by
  obtain ⟨b, hb, hfits⟩ := h.holds hpos
  obtain ⟨block, capacity, stride, align⟩ := s
  cases hb
  exact Parcel.peek_fill (Nat.le_trans (Nat.add_le_add_left hfit _) hfits) value k

/-- The element whose cells all hold the same byte. -/
def uniform (α : Type) [Element α] (value : UInt8) : α := Element.decode fun _ => .byte value

variable [LawfulElement α]

/-- **Filling a slot** is an update at one index. -/
theorem item_fill (h : s.Ready) {i : Nat} (hi : i < s.capacity) (hsize : Element.size α ≤ s.stride)
    (value : UInt8) :
    (s.fill (i * s.stride) s.stride value).item =
      Function.update (s.item (α := α)) i (uniform α value) := by
  have hslot : i * s.stride + s.stride ≤ s.capacity * s.stride := mul_stride_add_le hi
  have hpeek := h.peek_fill (Nat.zero_lt_of_lt hi) hslot value
  funext j
  unfold item load
  rw [(samePlace_fill s _ _ _).stride_eq]
  by_cases hj : j = i
  · subst hj
    rw [Function.update_self]
    refine LawfulElement.decode_congr _ _ fun k hk => ?_
    rw [hpeek, if_pos (by omega)]
  · -- The cells of another slot lie all before the filled one or all behind it.
    rw [Function.update_of_ne hj]
    refine LawfulElement.decode_congr _ _ fun k hk => ?_
    rw [hpeek, if_neg]
    rcases Nat.lt_or_gt_of_ne hj with hlt | hgt
    · have : j * s.stride + s.stride ≤ i * s.stride := mul_stride_add_le_mul hlt
      omega
    · have : i * s.stride + s.stride ≤ j * s.stride := mul_stride_add_le_mul hgt
      omega

variable [Initial α]

/-- **Initialising** a range of slots puts the initial value there and changes no other element. -/
theorem initialise_ends (h : s.Ready) (hsize : Element.size α ≤ s.stride) {start count : Nat}
    (hfit : start + count ≤ s.capacity) (host : Host) :
    (initialise (ε := ε) α start count).Ends (s, host)
      (fun _ s' => Walk.Carries s s'.1
          (fun j => if start ≤ j ∧ j < start + count then Initial.initial else s.item (α := α) j) ∧
        s'.2 = host)
      (fun _ _ => False) := by
  induction count generalizing s start with
  | zero =>
    refine Prog.Ends.pure ⟨⟨.refl s, h, ?_⟩, rfl⟩
    funext j
    rw [if_neg (by omega)]
  | succ count ih =>
    have hstart : start < s.capacity := by omega
    have hplace := samePlace_store s (start * s.stride) (Initial.initial : α)
    have hitem := item_store h hstart hsize (Initial.initial : α)
    unfold initialise
    apply Prog.Ends.bind_ok (locate_eq h hstart host)
    apply Prog.Ends.bind_ok (Hosted.update_eq _ _ _)
    have hrest : start + 1 + count ≤
        (s.store (start * s.stride) (Initial.initial : α)).capacity := by
      rw [hplace.capacity_eq]
      omega
    apply (ih (h.store _ _) (hplace.stride_eq.symm ▸ hsize) hrest).mono _ fun _ _ hfalse => hfalse
    rintro _ ⟨s', host'⟩ ⟨hcarries, rfl⟩
    refine ⟨⟨hplace.trans hcarries.place, hcarries.ready, ?_⟩, rfl⟩
    rw [hcarries.item_eq, hitem]
    funext j
    by_cases hj : j = start
    · subst hj
      rw [if_neg (by omega), if_pos (by omega), Function.update_self]
    · rw [Function.update_of_ne hj]
      by_cases hrange : start + 1 ≤ j ∧ j < start + 1 + count
      · rw [if_pos hrange, if_pos (by omega)]
      · rw [if_neg hrange, if_neg (by omega)]

end Slots

end AlignedSlots
