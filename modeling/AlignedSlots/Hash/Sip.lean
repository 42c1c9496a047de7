import AlignedSlots.FixedInt

/-!
# SipHash-1-3

The keyed hash SipHash with one compression round for each word of the message and three final
rounds, under the key of zeros.  The message is cut into words of eight bytes; its last word holds the
bytes that are left and, in its highest byte, the length of the message modulo 256.
-/

namespace AlignedSlots

namespace Sip

/-- The four words of state. -/
structure State where
  v0 : UInt64
  v1 : UInt64
  v2 : UInt64
  v3 : UInt64
  deriving DecidableEq

/-- Rotates a word to the left. -/
def rotateLeft (x : UInt64) (amount : UInt64) : UInt64 :=
  (x <<< amount) ||| (x >>> (64 - amount))

/-- One round of mixing. -/
def State.round (s : State) : State :=
  let v0 := s.v0 + s.v1
  let v2 := s.v2 + s.v3
  let v1 := rotateLeft s.v1 13 ^^^ v0
  let v3 := rotateLeft s.v3 16 ^^^ v2
  let v0 := rotateLeft v0 32
  let v2 := v2 + v1
  let v0 := v0 + v3
  let v1 := rotateLeft v1 17 ^^^ v2
  let v3 := rotateLeft v3 21 ^^^ v0
  let v2 := rotateLeft v2 32
  ⟨v0, v1, v2, v3⟩

/-- The state before the message, for the key `(k0, k1)`. -/
def State.start (k0 k1 : UInt64) : State :=
  ⟨k0 ^^^ 0x736f6d6570736575, k1 ^^^ 0x646f72616e646f6d,
    k0 ^^^ 0x6c7967656e657261, k1 ^^^ 0x7465646279746573⟩

/-- Takes in one word with one round. -/
def State.absorb (s : State) (word : UInt64) : State :=
  let t := ({ s with v3 := s.v3 ^^^ word } : State).round
  { t with v0 := t.v0 ^^^ word }

/-- The word whose low bytes are those of the list. -/
def wordOf (bytes : List UInt8) : UInt64 :=
  bytes.foldr (fun b w => (w <<< 8) ||| b.toUInt64) 0

/-- Takes in a message of `length` bytes, of which the list holds those still to come. -/
def State.absorbAll (s : State) (length : Nat) : List UInt8 → State
  | b0 :: b1 :: b2 :: b3 :: b4 :: b5 :: b6 :: b7 :: rest =>
      (s.absorb (wordOf [b0, b1, b2, b3, b4, b5, b6, b7])).absorbAll length rest
  | rest => s.absorb (wordOf rest ||| ((UInt64.ofNat length) <<< 56))

/-- Three closing rounds and the sum of the state. -/
def State.finish (s : State) : UInt64 :=
  let t := ({ s with v2 := s.v2 ^^^ 0xff } : State).round.round.round
  t.v0 ^^^ t.v1 ^^^ t.v2 ^^^ t.v3

/-- The hash of a message under the key of zeros. -/
def hash (message : List UInt8) : UInt64 :=
  ((State.start 0 0).absorbAll message.length message).finish

end Sip

end AlignedSlots
