import Mathlib
import AlignedSlots.Hash.Fnv

/-!
# Absorption loses nothing

A byte is taken in by an exclusive or, which is its own inverse, and a multiplication with an odd number,
which has an inverse modulo a power of two.  So for fixed bytes the running hash after them determines the
one before them, and `Fnv.Variant.absorb_bijective` is that no value is left out either.  Only the last of
different bytes can undo what another one did: texts that differ in one byte have different hashes.

This is about the running hash.  Texts that differ in several bytes may well have the same hash.
-/

namespace AlignedSlots

namespace Fnv

variable {width : Nat} {v : Variant width} {b b' : UInt8} {hash hash' : BitVec width}

/-- A multiplication with an odd number can be undone. -/
theorem mul_odd_injective {p : BitVec width} (odd : p.toNat % 2 = 1) :
    Function.Injective fun x : BitVec width => x * p := by
  intro x y hxy
  have hcoprime : Nat.Coprime (2 ^ width) p.toNat :=
    Nat.Coprime.pow_left width (Nat.coprime_two_left.mpr (Nat.odd_iff.mpr odd))
  have hproducts : x.toNat * p.toNat ≡ y.toNat * p.toNat [MOD 2 ^ width] := by
    have hbits := congrArg BitVec.toNat hxy
    simp only [BitVec.toNat_mul] at hbits
    exact hbits
  have hfactors : x.toNat ≡ y.toNat [MOD 2 ^ width] :=
    Nat.ModEq.cancel_right_of_coprime hcoprime hproducts
  exact BitVec.eq_of_toNat_eq (hfactors.eq_of_lt_of_lt x.isLt y.isLt)

/-- Bytes are different numbers at every width that holds a byte. -/
theorem setWidth_byte_injective (wide : 8 ≤ width) (h : b.toBitVec.setWidth width =
    b'.toBitVec.setWidth width) : b = b' := by
  have hback := congrArg (BitVec.setWidth 8) h
  simp only [BitVec.setWidth_setWidth_of_le _ wide, BitVec.setWidth_eq] at hback
  exact UInt8.eq_of_toBitVec_eq hback

namespace Variant

/-! ## One byte -/

/-- Different running hashes are different after a byte. -/
theorem absorbByte_injective (odd : v.prime.toNat % 2 = 1) (b : UInt8) :
    Function.Injective fun hash => v.absorbByte hash b := by
  intro hash hash' heq
  have hxor := mul_odd_injective odd heq
  exact (BitVec.xor_left_inj _).mp hxor

/-- A running hash is different after different bytes. -/
theorem byte_eq_of_absorbByte (odd : v.prime.toNat % 2 = 1) (wide : 8 ≤ width)
    (h : v.absorbByte hash b = v.absorbByte hash b') : b = b' := by
  have hxor := mul_odd_injective odd h
  exact setWidth_byte_injective wide ((BitVec.xor_right_inj _).mp hxor)

/-! ## Bytes -/

theorem absorb_injective (odd : v.prime.toNat % 2 = 1) (bytes : List UInt8) :
    Function.Injective fun hash => v.absorb hash bytes := by
  induction bytes with
  | nil =>
    intro hash hash' heq
    exact heq
  | cons b rest ih =>
    intro hash hash' heq
    simp only [absorb_cons] at heq
    exact absorbByte_injective odd b (ih heq)

/-- **Taking in bytes is a bijection** of the running hashes. -/
theorem absorb_bijective (odd : v.prime.toNat % 2 = 1) (bytes : List UInt8) :
    Function.Bijective fun hash => v.absorb hash bytes :=
  Finite.injective_iff_bijective.mp (absorb_injective odd bytes)

/-- Texts with one different byte have different hashes. -/
theorem absorb_ne_of_byte_ne (odd : v.prime.toNat % 2 = 1) (wide : 8 ≤ width) (hne : b ≠ b')
    (hash : BitVec width) (before after : List UInt8) :
    v.absorb hash (before ++ b :: after) ≠ v.absorb hash (before ++ b' :: after) := by
  intro heq
  simp only [absorb_append, absorb_cons] at heq
  exact hne (byte_eq_of_absorbByte odd wide (absorb_injective odd after heq))

end Variant

/-! ## Texts that differ in one position -/

/-- Texts of the same length that differ in one position and no other. -/
def DifferOnce (xs ys : List UInt8) : Prop := xs.length = ys.length ∧ ∃! i : Nat, xs[i]? ≠ ys[i]?

/-- What lies around the position is the same in both. -/
theorem DifferOnce.exists_split {xs ys : List UInt8} (h : DifferOnce xs ys) :
    ∃ before b b' after, b ≠ b' ∧ xs = before ++ b :: after ∧ ys = before ++ b' :: after := by
  obtain ⟨hlength, i, hi, hunique⟩ := h
  have hother : ∀ j, j ≠ i → xs[j]? = ys[j]? := by
    intro j hj
    by_contra hne
    exact hj (hunique j hne)
  have hlt : i < xs.length := by
    by_contra hout
    apply hi
    simp only [List.getElem?_eq_none (Nat.le_of_not_lt hout),
      List.getElem?_eq_none (hlength ▸ Nat.le_of_not_lt hout)]
  have hlt' : i < ys.length := hlength ▸ hlt
  have hbefore : xs.take i = ys.take i := by
    apply List.ext_getElem?
    intro j
    simp only [List.getElem?_take]
    split
    · exact hother j (by omega)
    · rfl
  have hafter : xs.drop (i + 1) = ys.drop (i + 1) := by
    apply List.ext_getElem?
    intro j
    simp only [List.getElem?_drop]
    exact hother (i + 1 + j) (by omega)
  refine ⟨xs.take i, xs[i], ys[i], xs.drop (i + 1), ?_, ?_, ?_⟩
  · intro heq
    apply hi
    rw [List.getElem?_eq_getElem hlt, List.getElem?_eq_getElem hlt', heq]
  · simp
  · rw [hbefore, hafter]
    simp

/-! ## Both widths -/

/-- What a variant keeps apart. -/
structure Variant.Lossless (v : Variant width) : Prop where
  /-- Every running hash comes from exactly one before the bytes. -/
  bijective : ∀ bytes, Function.Bijective fun hash => v.absorb hash bytes
  /-- From any start, one different byte makes a different hash. -/
  separates : ∀ hash xs ys, DifferOnce xs ys → v.absorb hash xs ≠ v.absorb hash ys

theorem Variant.lossless (odd : v.prime.toNat % 2 = 1) (wide : 8 ≤ width) : v.Lossless := by
  refine ⟨absorb_bijective odd, ?_⟩
  intro hash xs ys hdiffer
  obtain ⟨before, b, b', after, hne, rfl, rfl⟩ := hdiffer.exists_split
  exact absorb_ne_of_byte_ne odd wide hne hash before after

/-- The streams of different values still have different values after the same bytes. -/
theorem Stream.value_absorb_ne {h h' : Stream} (hne : h.value ≠ h'.value) (bytes : List UInt8) :
    (h.absorb bytes).value ≠ (h'.absorb bytes).value := by
  intro heq
  have hrunning : bits64.absorb h.running bytes = bits64.absorb h'.running bytes :=
    congrArg UInt64.toBitVec heq
  have hstart := Variant.absorb_injective (v := bits64) (by decide) bytes hrunning
  exact hne (congrArg UInt64.ofBitVec hstart)

/-- **No hash is merged with another one** at either width: not by bytes that both take in, nor by a
single different byte.  Two streams stay apart through all that is written to both. -/
theorem hashes_stay_apart :
    bits32.Lossless ∧ bits64.Lossless ∧
      ∀ (h h' : Stream) (writes : List (List UInt8)), h.value ≠ h'.value →
        (writes.foldl Stream.absorb h).value ≠ (writes.foldl Stream.absorb h').value := by
  refine ⟨Variant.lossless (by decide) (by decide), Variant.lossless (by decide) (by decide), ?_⟩
  intro h h' writes hne
  induction writes generalizing h h' with
  | nil => exact hne
  | cons bytes rest ih =>
    simp only [List.foldl_cons]
    exact ih _ _ (Stream.value_absorb_ne hne bytes)

/-- The first bytes differ, the others are the same: so do the hashes at both widths, and streams that
have taken in one of them each never have the same value again. -/
theorem hashes_stay_apart_first :
    bits32.absorb bits32.basis [0, 7, 7] ≠ bits32.absorb bits32.basis [128, 7, 7] ∧
      bits64.absorb bits64.basis [0, 7, 7] ≠ bits64.absorb bits64.basis [128, 7, 7] ∧
      ∀ writes : List (List UInt8),
        (writes.foldl Stream.absorb (Stream.fresh.absorb [0])).value ≠
          (writes.foldl Stream.absorb (Stream.fresh.absorb [128])).value := by
  have hdiffer : DifferOnce [0, 7, 7] [128, 7, 7] := by
    refine ⟨rfl, 0, by decide, ?_⟩
    intro i hi
    match i with
    | 0 => rfl
    | i + 1 => exact (hi rfl).elim
  obtain ⟨h32, h64, hstreams⟩ := hashes_stay_apart
  refine ⟨h32.separates _ _ _ hdiffer, h64.separates _ _ _ hdiffer, ?_⟩
  intro writes
  exact hstreams _ _ writes (by decide)

end Fnv

end AlignedSlots
