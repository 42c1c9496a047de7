import Mathlib
import AlignedSlots.Hash.Fnv

/-!
# Low bits of a hash

The low bits of an exclusive or, and of a product, come from the low bits of its two sides alone.  So the
low bits of a running FNV-1a hash are decided by the low bits of the bytes, which is
`Fnv.Variant.absorb_modEq`.  High bits of the bytes only ever move upwards.
-/

namespace AlignedSlots

namespace Fnv

variable {width k : Nat} {v : Variant width} {b b' : UInt8} {hash hash' : BitVec width}
  {xs ys : List UInt8}

/-- Bytes that agree modulo `2 ^ k`, one by one. -/
def AgreeBelow (k : Nat) (xs ys : List UInt8) : Prop :=
  List.Forall₂ (fun x y : UInt8 => x.toNat ≡ y.toNat [MOD 2 ^ k]) xs ys

theorem xor_modEq {a a' b b' : Nat} (ha : a ≡ a' [MOD 2 ^ k]) (hb : b ≡ b' [MOD 2 ^ k]) :
    a ^^^ b ≡ a' ^^^ b' [MOD 2 ^ k] := by
  unfold Nat.ModEq at ha hb ⊢
  rw [Nat.xor_mod_two_pow, Nat.xor_mod_two_pow, ha, hb]

/-- What is cut off by a width lies above the low bits. -/
theorem toNat_mul_modEq (hk : k ≤ width) (x y : BitVec width) :
    (x * y).toNat ≡ x.toNat * y.toNat [MOD 2 ^ k] := by
  rw [BitVec.toNat_mul]
  exact (Nat.mod_modEq _ _).of_dvd (Nat.pow_dvd_pow 2 hk)

theorem toNat_setWidth_modEq (hk : k ≤ width) (b : UInt8) :
    (b.toBitVec.setWidth width).toNat ≡ b.toNat [MOD 2 ^ k] := by
  rw [BitVec.toNat_setWidth]
  exact (Nat.mod_modEq _ _).of_dvd (Nat.pow_dvd_pow 2 hk)

namespace Variant

/-- **One byte**: the low bits after it are decided by the low bits before it and its own. -/
theorem absorbByte_modEq (hk : k ≤ width) (hhash : hash.toNat ≡ hash'.toNat [MOD 2 ^ k])
    (hbyte : b.toNat ≡ b'.toNat [MOD 2 ^ k]) :
    (v.absorbByte hash b).toNat ≡ (v.absorbByte hash' b').toNat [MOD 2 ^ k] := by
  have hmixed : ∀ (hash : BitVec width) (b : UInt8), (v.absorbByte hash b).toNat ≡
      (hash.toNat ^^^ b.toNat) * v.prime.toNat [MOD 2 ^ k] := by
    intro hash b
    have hxor : (hash ^^^ b.toBitVec.setWidth width).toNat ≡ hash.toNat ^^^ b.toNat [MOD 2 ^ k] := by
      rw [BitVec.toNat_xor]
      exact xor_modEq rfl (toNat_setWidth_modEq hk b)
    exact (toNat_mul_modEq hk _ _).trans (hxor.mul_right _)
  calc (v.absorbByte hash b).toNat
      ≡ (hash.toNat ^^^ b.toNat) * v.prime.toNat [MOD 2 ^ k] := hmixed hash b
    _ ≡ (hash'.toNat ^^^ b'.toNat) * v.prime.toNat [MOD 2 ^ k] :=
        (xor_modEq hhash hbyte).mul_right _
    _ ≡ (v.absorbByte hash' b').toNat [MOD 2 ^ k] := (hmixed hash' b').symm

/-- **Low bits see only low bits**, through bytes of any number. -/
theorem absorb_modEq (hk : k ≤ width) (hagree : AgreeBelow k xs ys)
    (hhash : hash.toNat ≡ hash'.toNat [MOD 2 ^ k]) :
    (v.absorb hash xs).toNat ≡ (v.absorb hash' ys).toNat [MOD 2 ^ k] := by
  unfold AgreeBelow at hagree
  induction hagree generalizing hash hash' with
  | nil => exact hhash
  | cons hbyte _ ih =>
    simp only [absorb_cons]
    exact ih (absorbByte_modEq hk hhash hbyte)

/-- From any start, the low bits of a hash are decided by those of the bytes. -/
def SeesLowBits (v : Variant width) : Prop :=
  ∀ k ≤ 8, ∀ (seed : BitVec width) (xs ys : List UInt8), AgreeBelow k xs ys →
    (v.absorb seed xs).toNat ≡ (v.absorb seed ys).toNat [MOD 2 ^ k]

theorem seesLowBits (wide : 8 ≤ width) (v : Variant width) : v.SeesLowBits := by
  intro k hk seed xs ys hagree
  exact absorb_modEq (Nat.le_trans hk wide) hagree rfl

end Variant

end Fnv

end AlignedSlots
