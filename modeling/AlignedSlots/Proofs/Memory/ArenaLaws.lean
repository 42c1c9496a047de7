import Mathlib
import AlignedSlots.Memory.Arena
import AlignedSlots.Proofs.Memory.Placing
import AlignedSlots.Proofs.Memory.Rounding

/-!
# Operations of an arena

`Arena.Sound` is what every operation of an arena relies on and keeps: the block is a placed block of its
size, and no more than all of it is in use.  After an arena was made nothing asks the heap for anything, and
`Arena.take_ends` says exactly when a piece is refused.
-/

namespace AlignedSlots

namespace Arena

variable {ε : Type} {a : Arena} {host : Host}

/-- What the operations of an arena rely on. -/
structure Sound (a : Arena) : Prop where
  placed : a.block.Placed addressAlign a.size
  offset_le : a.offset ≤ a.size

/-- The size of an arena is a word. -/
theorem Sound.size_le (h : a.Sound) : a.size ≤ Word.greatest := by
  have hroom : 2 ≤ a.block.start := h.placed.room
  have hfits := h.placed.fits
  have hbounded : a.block.raw.base + a.block.raw.size ≤ 2 ^ 64 := h.placed.bounded
  have hword : Word.greatest = 2 ^ 64 - 1 := rfl
  omega

theorem updateBlock_eq (f : Parcel → Parcel) (a : Arena) (host : Host) :
    (updateBlock f : Hosted ε Arena Unit) (a, host) = .ok () ({ a with block := f a.block }, host) :=
  rfl

theorem setOffset_eq (offset : Nat) (a : Arena) (host : Host) :
    (setOffset offset : Hosted ε Arena Unit) (a, host) = .ok () ({ a with offset }, host) :=
  rfl

/-! ## Taking pieces -/

/-- How many bytes a piece takes. -/
def pieceSize (size : Nat) : Nat := Layout.roundUp size addressAlign

/-- The arena after a piece was cut off. -/
def taken (a : Arena) (size : Nat) : Arena := { a with offset := a.offset + pieceSize size }

/-- There is such a piece, and room for it. -/
def Fits (a : Arena) (size : Nat) : Prop := 0 < size ∧ a.offset + pieceSize size ≤ a.size

theorem Sound.taken (h : a.Sound) {size : Nat} (hfits : a.Fits size) : (a.taken size).Sound :=
  ⟨h.placed, hfits.2⟩

/-- Cutting off a piece: it starts where the pieces so far end, and nothing but a lack of room refuses
it. -/
theorem take_ends (h : a.Sound) (size : Nat) (host : Host) :
    (take size : Hosted ε Arena (Option Nat)).Ends (a, host)
      (fun piece s => s.2.heap = host.heap ∧
        (a.Fits size ∧ piece = some a.offset ∧ s.1 = a.taken size ∨
          ¬ a.Fits size ∧ piece = none ∧ s.1 = a))
      (fun _ _ => False) := by
  -- A piece that is too large for a word is too large for the arena, whose size is one.
  have hsize := h.size_le
  have hword : Word.greatest = 2 ^ 64 - 1 := rfl
  have halign : addressAlign = 8 := rfl
  have hpiece : pieceSize size = (size + 8 - 1) / 8 * 8 := rfl
  have hround : Word.roundUp? size addressAlign = _ := Word.roundUp?_eq ⟨3, rfl⟩ (by decide)
  unfold take
  by_cases hzero : size = 0
  · rw [if_pos hzero]
    exact Prog.Ends.pure ⟨rfl, .inr ⟨fun hfits => absurd hzero (Nat.pos_iff_ne_zero.mp hfits.1),
      rfl, rfl⟩⟩
  rw [if_neg hzero]
  by_cases hfit : size + (addressAlign - 1) ≤ Word.greatest
  · rw [if_pos hfit] at hround
    have hround : Word.roundUp? size addressAlign = .ok (some (pieceSize size)) := hround
    apply Prog.Ends.bind_ok (Prog.lift_ok hround)
    refine Prog.Ends.bind_ok (rfl : currentOffset (a, host) = .ok a.offset (a, host)) ?_
    cases hstop : Word.add? a.offset (pieceSize size) with
    | none =>
      have hlarge := Word.add?_eq_none_iff.mp hstop
      refine Prog.Ends.pure ⟨rfl, .inr ⟨fun hfits => ?_, rfl, rfl⟩⟩
      have := hfits.2
      omega
    | some stop =>
      obtain ⟨_, rfl⟩ := Word.add?_eq_some_iff.mp hstop
      refine Prog.Ends.bind_ok (rfl : currentSize (a, host) = .ok a.size (a, host)) ?_
      by_cases hroom : a.size < a.offset + pieceSize size
      · rw [if_pos hroom]
        apply Hosted.trace_ends
        intro log
        refine Prog.Ends.pure ⟨rfl, .inr ⟨fun hfits => ?_, rfl, rfl⟩⟩
        exact Nat.not_lt.mpr hfits.2 hroom
      · rw [if_neg hroom]
        apply Prog.Ends.bind_ok (setOffset_eq _ a host)
        exact Prog.Ends.pure ⟨rfl, .inl ⟨⟨by omega, by omega⟩, rfl, rfl⟩⟩
  · rw [if_neg hfit] at hround
    apply Prog.Ends.bind_ok (Prog.lift_ok hround)
    refine Prog.Ends.pure ⟨rfl, .inr ⟨fun hfits => ?_, rfl, rfl⟩⟩
    have := hfits.2
    omega

/-- A zeroed piece is cut off like any other one. -/
theorem takeZeroed_ends (h : a.Sound) (size : Nat) (host : Host) :
    (takeZeroed size : Hosted ε Arena (Option Nat)).Ends (a, host)
      (fun piece s => s.2.heap = host.heap ∧
        (a.Fits size ∧ piece = some a.offset ∧
            s.1 = { a.taken size with block := a.block.fill a.offset (pieceSize size) 0 } ∨
          ¬ a.Fits size ∧ piece = none ∧ s.1 = a))
      (fun _ _ => False) := by
  unfold takeZeroed
  refine Prog.Ends.bind_ok (rfl : currentOffset (a, host) = .ok a.offset (a, host)) ?_
  apply (take_ends h size host).bind _ fun _ _ hfalse => hfalse
  rintro _ ⟨a', host'⟩ ⟨hheap, ⟨hfits, rfl, rfl⟩ | ⟨hfits, rfl, rfl⟩⟩
  · refine Prog.Ends.bind_ok
      (rfl : currentOffset (a.taken size, host') = .ok (a.taken size).offset (a.taken size, host')) ?_
    have hle : a.offset ≤ (a.taken size).offset := Nat.le_add_right _ _
    have hcount : (a.taken size).offset - a.offset = pieceSize size := Nat.add_sub_cancel_left _ _
    apply Prog.Ends.bind_ok (Prog.lift_ok (Word.sub_eq_ok hle))
    rw [hcount]
    apply Prog.Ends.bind_ok (updateBlock_eq _ _ _)
    exact Prog.Ends.pure ⟨hheap, .inl ⟨hfits, rfl, rfl⟩⟩
  · exact Prog.Ends.pure ⟨hheap, .inr ⟨hfits, rfl, rfl⟩⟩

/-! ## The other operations -/

theorem remaining_eq (h : a.Sound) : a.remaining = .ok (a.size - a.offset) :=
  Word.sub_eq_ok h.offset_le

theorem Sound.reset (h : a.Sound) : Sound { a with offset := 0 } := ⟨h.placed, Nat.zero_le _⟩

theorem Sound.writeBytes (h : a.Sound) (offset : Nat) (bytes : List UInt8) :
    Sound { a with block := a.block.writeBytes offset bytes } :=
  ⟨h.placed.writeBytes offset bytes, h.offset_le⟩

theorem Sound.fill (h : a.Sound) (offset count : Nat) (value : UInt8) :
    Sound { a with block := a.block.fill offset count value } :=
  ⟨h.placed.fill offset count value, h.offset_le⟩

/-- **An arena** is made with its one block, and nothing of it is in use. -/
theorem create_ends (size : Nat) (host : Host) (bounds : host.heap.placement.InBounds) :
    (create size).Ends host
      (fun a host' => a.Sound ∧ a.size = size ∧ a.offset = 0 ∧
        host'.heap = host.heap.after
          [.granted (Parcel.totalSize addressAlign size) a.block.raw.base])
      (fun e host' => e = .error .refused ∧
        Parcel.Refuses host.heap addressAlign size host'.heap) := by
  have valid : ValidAlign addressAlign := by decide
  unfold create
  apply (Parcel.allocate_ends false size host valid bounds).bind _ fun _ _ hrefused => hrefused
  rintro b host' ⟨base, hgrant, hheap⟩
  obtain ⟨hplaced, rfl, _, _⟩ := hgrant.placed valid bounds
  exact Prog.Ends.pure ⟨⟨hplaced, Nat.zero_le _⟩, rfl, rfl, hheap⟩

/-- **Dropping** an arena gives its block back. -/
theorem drop_ends (h : a.Sound) (host : Host) :
    (drop : Hosted ε Arena Unit).Ends (a, host)
      (fun _ s => s.2.heap = host.heap.after [.freed a.block.raw.base]) (fun _ _ => False) := by
  have hrelease : (Hosted.onHost a.block.release : Hosted ε Arena Unit) (a, host) =
      .ok () (a, { host with heap := host.heap.after [.freed a.block.raw.base] }) := by
    simp only [Hosted.onHost, Parcel.release_eq h.placed host]
  unfold drop
  apply Prog.Ends.bind_ok (Hosted.object_eq a host)
  exact Prog.Ends.of_ok hrelease rfl

end Arena

end AlignedSlots
