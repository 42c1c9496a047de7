import AlignedSlots.Hash.Fnv
import AlignedSlots.Hash.Sip

/-!
# Hashing values

A value is hashed through the bytes that stand for it, its *digest*: numbers from the low byte to the
high byte, a text as its bytes and a closing `0xff`, a sequence as its length and then its members.
Either hash of this library is a hash of the digest.
-/

namespace AlignedSlots

/-- The bytes through which a value is hashed. -/
class Digest (α : Type) where
  digest : α → List UInt8

namespace Digest

/-- The bytes of a text in UTF-8. -/
def utf8 (text : String) : List UInt8 := text.toUTF8.toList

/-- The bytes of a length. -/
def length (n : Nat) : List UInt8 := littleEndian (BitVec.ofNat Word.width n)

instance {f : IntFormat} : Digest (FixedInt f) := ⟨fun x => littleEndian x.bits⟩

instance : Digest Bool := ⟨fun b => [if b then 1 else 0]⟩

instance : Digest Unit := ⟨fun _ => []⟩

instance : Digest Char := ⟨fun c => littleEndian c.val.toBitVec⟩

instance : Digest String := ⟨fun s => utf8 s ++ [0xff]⟩

instance {α : Type} [Digest α] : Digest (List α) :=
  ⟨fun xs => length xs.length ++ xs.flatMap digest⟩

instance {α : Type} {n : Nat} [Digest α] : Digest (Vector α n) :=
  ⟨fun xs => digest xs.toList⟩

instance {α β : Type} [Digest α] [Digest β] : Digest (α × β) :=
  ⟨fun p => digest p.1 ++ digest p.2⟩

instance {α : Type} [Digest α] : Digest (Option α) :=
  ⟨fun
    | none => length 0
    | some x => length 1 ++ digest x⟩

end Digest

/-- The 64-bit FNV-1a hash of a value. -/
def fnvHash {α : Type} [Digest α] (x : α) : UInt64 :=
  (Fnv.Stream.fresh.absorb (Digest.digest x)).value

/-- The SipHash of a value. -/
def sipHash {α : Type} [Digest α] (x : α) : UInt64 :=
  Sip.hash (Digest.digest x)

end AlignedSlots
