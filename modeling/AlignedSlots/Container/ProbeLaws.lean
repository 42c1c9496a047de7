import AlignedSlots.Container.ProbeTable

/-!
# Reading parts of an entry

A probe reads hashes and keys, and never a value.  The main statements, `ProbeTable.hashAt_eq` and
`ProbeTable.keyAt_eq`, say that these parts are the parts of the entry in the slot.
-/

namespace AlignedSlots

/-- A word is read as the bit pattern of its eight cells. -/
theorem Slots.word_eq (s : Slots) (offset : Nat) :
    s.word offset = ⟨Element.decodeBits 64 fun i => s.peek (offset + i)⟩ := by
  apply UInt64.toNat_inj.mp
  rcases s with ⟨block | block, capacity, stride, align⟩
  · change (0 : UInt64).toNat = (Element.decodeBits 64 fun _ => Cell.byte 0).toNat
    decide +kernel
  · change (wordOfBytes (fun i => (block.raw.cells.peek (block.start + offset + i)).toByte) 8 0).toNat =
      (wordOfBytes (fun i => (block.raw.cells.peek (block.start + (offset + i))).toByte) 8 0).toNat
    simp only [Nat.add_assoc]

namespace ProbeTable

variable {κ ν : Type} [Element κ] [Element ν]

theorem hashAt_eq (slots : Slots) (index : Nat) :
    hashAt slots index = (entryAt slots index : Except Fault (Entry κ ν)).map Entry.hash := by
  unfold hashAt entryAt
  cases slots.offset index with
  | error f => rfl
  | ok offset => exact congrArg Except.ok (slots.word_eq offset)

theorem keyAt_eq (slots : Slots) (index : Nat) :
    keyAt slots index = (entryAt slots index : Except Fault (Entry κ ν)).map Entry.key := by
  unfold keyAt entryAt
  cases slots.offset index with
  | error f => rfl
  | ok offset =>
    have key : (slots.load (offset + Entry.keyOffset κ) : κ) =
        (slots.load offset : Entry κ ν).key := by
      change (Element.decode fun i => slots.peek (offset + Entry.keyOffset κ + i) : κ) =
        Element.decode fun i => slots.peek (offset + (Entry.keyOffset κ + i))
      simp only [Nat.add_assoc]
    exact congrArg Except.ok key

/-- A slot holds a key exactly if its entry has the hash and a key that is the same. -/
theorem holdsKey_eq (slots : Slots) (keying : Keying κ) (hash : UInt64) (key : κ) (index : Nat)
    {entry : Entry κ ν} (read : entryAt slots index = .ok entry) :
    holdsKey slots keying hash entry.hash key index =
      .ok (entry.hash == hash && keying.same entry.key key) := by
  have stored : keyAt slots index = .ok entry.key := by
    rw [keyAt_eq (ν := ν), read]
    rfl
  unfold holdsKey
  rw [stored]
  split
  · next same => simp [same]
  · next other => simp [other]

end ProbeTable

end AlignedSlots
