import AlignedSlots.Hash.Digest

/-!
# Keying

How a table sees its keys: a hash, and a sameness of keys.  The hash 0 marks empty slots, so that no
key may have it, and keys that are the same should have the same hash.
-/

namespace AlignedSlots

/-- A hash and a sameness of keys. -/
structure Keying (κ : Type) where
  hash : κ → UInt64
  /-- The stored key is the same as the key asked for. -/
  same : κ → κ → Bool

namespace Keying

/-- Stands for a computed hash of 0. -/
def zeroSubstitute : UInt64 := 0x9e3779b97f4a7c15

/-- A hash other than 0. -/
def nonzero (hash : UInt64) : UInt64 := if hash = 0 then zeroSubstitute else hash

theorem nonzero_ne_zero (hash : UInt64) : nonzero hash ≠ 0 := by
  unfold nonzero
  split
  · decide
  · assumption

/-- The FNV-1a hash of a key, other than 0. -/
def fnvHash {κ : Type} [Digest κ] (key : κ) : UInt64 := nonzero (AlignedSlots.fnvHash key)

/-- FNV-1a and equality. -/
def fnv (κ : Type) [Digest κ] [BEq κ] : Keying κ := ⟨fnvHash, (· == ·)⟩

end Keying

end AlignedSlots
