import AlignedSlots.Growth

/-!
# Fixed-width integers

`FixedInt f` is an integer of the format `f`, held as its bits.  Wherever its bytes matter, in memory
and in hashes, they run from the low end to the high end.
-/

namespace AlignedSlots

-- Powers of numbers are those of the core library here, whatever a module below imports.
attribute [local instance (high)] instPowNat

/-- Byte `i` of a bit pattern, counted from the low end. -/
def byteAt {w : Nat} (b : BitVec w) (i : Nat) : UInt8 :=
  UInt8.ofNat (b.toNat >>> (8 * i))

/-- The number whose bytes, from the low end, are the `count` bytes from `byte start` on. -/
@[specialize] def ofBytes (byte : Nat → UInt8) : (count start : Nat) → Nat
  | 0, _ => 0
  | n + 1, start => (byte start).toNat + 256 * ofBytes byte n (start + 1)

/-- The same in the arithmetic of machine words, modulo `2 ^ 64`. -/
@[specialize] def wordOfBytes (byte : Nat → UInt8) : (count start : Nat) → UInt64
  | 0, _ => 0
  | n + 1, start => (byte start).toUInt64 + 256 * wordOfBytes byte n (start + 1)

/-- Only the bytes in the range matter. -/
theorem ofBytes_congr {f g : Nat → UInt8} (count start : Nat)
    (h : ∀ i < count, f (start + i) = g (start + i)) :
    ofBytes f count start = ofBytes g count start := by
  induction count generalizing start with
  | zero => rfl
  | succ n ih =>
    have head : f start = g start := h 0 (by omega)
    have tail : ofBytes f n (start + 1) = ofBytes g n (start + 1) :=
      ih (start + 1) fun i hi => by rw [Nat.add_assoc]; exact h (1 + i) (by omega)
    simp only [ofBytes, head, tail]

theorem ofBytes_lt (byte : Nat → UInt8) (count start : Nat) :
    ofBytes byte count start < 2 ^ (8 * count) := by
  induction count generalizing start with
  | zero => exact Nat.one_pos
  | succ n ih =>
    have head := (byte start).toNat_lt
    have tail := ih (start + 1)
    rw [Nat.mul_add, Nat.pow_add]
    simp only [ofBytes]
    omega

/-- The bytes of a range can be taken in two parts. -/
theorem ofBytes_add (byte : Nat → UInt8) (low high start : Nat) :
    ofBytes byte (low + high) start =
      ofBytes byte low start + 2 ^ (8 * low) * ofBytes byte high (start + low) := by
  induction low generalizing start with
  | zero => simp [ofBytes]
  | succ n ih =>
    have order : n + 1 + high = n + high + 1 := by omega
    have split : 2 ^ (8 * (n + 1)) = 256 * 2 ^ (8 * n) := by
      rw [Nat.mul_add, Nat.pow_add, Nat.mul_comm]
    rw [order, split]
    simp only [ofBytes, ih, Nat.mul_add, Nat.mul_assoc]
    rw [Nat.add_assoc (byte start).toNat, Nat.add_assoc start 1 n, Nat.add_comm 1 n]

theorem wordOfBytes_eq (byte : Nat → UInt8) (count start : Nat) :
    wordOfBytes byte count start = UInt64.ofNat (ofBytes byte count start) := by
  induction count generalizing start with
  | zero => rfl
  | succ n ih =>
    simp only [wordOfBytes, ofBytes, ih, UInt64.ofNat_add, UInt64.ofNat_mul,
      UInt64.ofNat_uInt8ToNat]
    rfl

/-- `ofBytes` from the first byte on, with the low eight bytes taken as one word. -/
@[inline] def numberOfBytes (byte : Nat → UInt8) (count : Nat) : Nat :=
  if count ≤ 8 then (wordOfBytes byte count 0).toNat
  else (wordOfBytes byte 8 0).toNat + 2 ^ (64 : Nat) * ofBytes byte (count - 8) 8

theorem toNat_wordOfBytes (byte : Nat → UInt8) {count : Nat} (h : count ≤ 8) (start : Nat) :
    (wordOfBytes byte count start).toNat = ofBytes byte count start := by
  have small := ofBytes_lt byte count start
  have word : 2 ^ (8 * count) ≤ 2 ^ 64 := Nat.pow_le_pow_right (by decide) (by omega)
  rw [wordOfBytes_eq, UInt64.toNat_ofNat_of_lt' (Nat.lt_of_lt_of_le small word)]

theorem numberOfBytes_eq (byte : Nat → UInt8) (count : Nat) :
    numberOfBytes byte count = ofBytes byte count 0 := by
  unfold numberOfBytes
  split
  · next h => exact toNat_wordOfBytes byte h 0
  · next h =>
    have parts := ofBytes_add byte 8 (count - 8) 0
    rw [Nat.add_sub_cancel' (by omega)] at parts
    rw [toNat_wordOfBytes byte (Nat.le_refl 8) 0, parts]

theorem toNat_byteAt {w : Nat} (b : BitVec w) (i : Nat) :
    (byteAt b i).toNat = b.toNat / 2 ^ (8 * i) % 256 := by
  simp [byteAt, Nat.shiftRight_eq_div_pow]

/-- The bytes of a pattern from byte `start` on make up the part of the pattern that they cover. -/
theorem ofBytes_byteAt_add {w : Nat} (b : BitVec w) (count start : Nat) :
    ofBytes (byteAt b) count start = b.toNat / 2 ^ (8 * start) % 2 ^ (8 * count) := by
  induction count generalizing start with
  | zero => simp [ofBytes, Nat.mod_one]
  | succ n ih =>
    have split : 2 ^ (8 * (n + 1)) = 256 * 2 ^ (8 * n) := by
      rw [Nat.mul_add, Nat.pow_add, Nat.mul_comm]
    have step : 2 ^ (8 * (start + 1)) = 2 ^ (8 * start) * 256 := by
      rw [Nat.mul_add, Nat.pow_add]
    simp only [ofBytes]
    rw [ih, toNat_byteAt, split, Nat.mod_mul, step, Nat.div_div_eq_div_mul]

/-- A pattern of whole bytes is made up of its bytes. -/
theorem ofBytes_byteAt {w : Nat} (b : BitVec w) (h : 8 ∣ w) :
    ofBytes (byteAt b) (w / 8) 0 = b.toNat := by
  have whole := ofBytes_byteAt_add b (w / 8) 0
  simp only [Nat.mul_zero, Nat.pow_zero, Nat.div_one] at whole
  rw [whole, Nat.mul_div_cancel' h, Nat.mod_eq_of_lt b.isLt]

/-- All bytes of a bit pattern, from the low end. -/
def littleEndian {w : Nat} (b : BitVec w) : List UInt8 :=
  (List.range (w / 8)).map (byteAt b)

/-- An integer of the format `f`. -/
structure FixedInt (f : IntFormat) where
  bits : BitVec f.width
  deriving DecidableEq

namespace FixedInt

variable {f : IntFormat}

/-- The integer of the format that agrees with `n` modulo the power of two of its width. -/
def ofInt (f : IntFormat) (n : Int) : FixedInt f := ⟨f.bits n⟩

/-- The number it stands for. -/
def toInt (x : FixedInt f) : Int := f.value x.bits

instance : Inhabited (FixedInt f) := ⟨ofInt f 0⟩

end FixedInt

end AlignedSlots
