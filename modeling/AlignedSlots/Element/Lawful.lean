import AlignedSlots.Container.Entry
import AlignedSlots.Element.Compound

/-!
# Lawful elements

Every element type of this library reads back what was written.  The main statements are the
instances of `LawfulElement`: for integers of whole bytes, for the simple types, for pairs, fixed
sequences and vectors, and for the entries of tables.
-/

namespace AlignedSlots

-- Powers of numbers are those of the core library here, whatever a module below imports.
attribute [local instance (high)] instPowNat

namespace Layout

/-- Rounding up never goes down. -/
theorem le_roundUp {n align : Nat} (h : 0 < align) : n ≤ roundUp n align := by
  unfold roundUp
  have split := Nat.div_add_mod (n + align - 1) align
  have rest := Nat.mod_lt (n + align - 1) h
  rw [Nat.mul_comm] at split
  omega

theorem dvd_roundUp (n align : Nat) : align ∣ roundUp n align := Nat.dvd_mul_left _ _

end Layout

theorem isPowerOfTwo_max {a b : Nat} (ha : a.isPowerOfTwo) (hb : b.isPowerOfTwo) :
    (max a b).isPowerOfTwo := by
  rcases Nat.le_total a b with h | h
  · rwa [Nat.max_eq_right h]
  · rwa [Nat.max_eq_left h]

namespace Element

/-! ## Bit patterns -/

theorem toNat_decodeBits (w : Nat) (cells : Nat → Cell) :
    (decodeBits w cells).toNat = ofBytes (fun i => (cells i).toByte) (w / 8) 0 :=
  numberOfBytes_eq _ _

theorem decodeBits_encodeBits {w : Nat} (b : BitVec w) (h : 8 ∣ w) :
    decodeBits w (encodeBits b) = b := by
  apply BitVec.eq_of_toNat_eq
  rw [toNat_decodeBits]
  exact ofBytes_byteAt b h

theorem decodeBits_congr {w : Nat} {f g : Nat → Cell} (h : ∀ i < w / 8, f i = g i) :
    decodeBits w f = decodeBits w g := by
  apply BitVec.eq_of_toNat_eq
  rw [toNat_decodeBits, toNat_decodeBits]
  exact ofBytes_congr (w / 8) 0 fun i hi => by rw [Nat.zero_add, h i hi]

/-! ## Simple elements -/

/-- Integers whose width is a power of two and at least one byte. -/
theorem lawful_fixedInt {f : IntFormat} (k : Nat) (h : f.width = 2 ^ (k + 3)) :
    LawfulElement (FixedInt f) where
  decode_encode x := by
    have whole : 8 ∣ f.width := h ▸ ⟨2 ^ k, by rw [Nat.pow_add]; omega⟩
    exact congrArg FixedInt.mk (decodeBits_encodeBits x.bits whole)
  decode_congr a b same := congrArg FixedInt.mk (decodeBits_congr same)
  align_isPowerOfTwo := ⟨k, by
    change f.width / 8 = 2 ^ k
    rw [h, Nat.pow_add]
    omega⟩
  align_dvd_size := Nat.dvd_refl _

instance {s : Bool} : LawfulElement (FixedInt ⟨8, s⟩) := lawful_fixedInt 0 rfl

instance {s : Bool} : LawfulElement (FixedInt ⟨16, s⟩) := lawful_fixedInt 1 rfl

instance {s : Bool} : LawfulElement (FixedInt ⟨32, s⟩) := lawful_fixedInt 2 rfl

instance {s : Bool} : LawfulElement (FixedInt ⟨64, s⟩) := lawful_fixedInt 3 rfl

instance {s : Bool} : LawfulElement (FixedInt ⟨128, s⟩) := lawful_fixedInt 4 rfl

instance : LawfulElement Binary32 where
  decode_encode x := congrArg Binary32.mk (decodeBits_encodeBits x.bits ⟨4, rfl⟩)
  decode_congr _ _ same := congrArg Binary32.mk (decodeBits_congr (w := 32) same)
  align_isPowerOfTwo := ⟨2, rfl⟩
  align_dvd_size := Nat.dvd_refl _

instance : LawfulElement Bool where
  decode_encode x := by cases x <;> rfl
  decode_congr f g same := by
    change ((f 0).toByte != 0) = ((g 0).toByte != 0)
    rw [same 0 (by decide)]
  align_isPowerOfTwo := ⟨0, rfl⟩
  align_dvd_size := Nat.dvd_refl _

instance : LawfulElement Char where
  decode_encode x := by
    change Char.ofNat (decodeBits 32 (encodeBits (BitVec.ofNat 32 x.toNat))).toNat = x
    have small : x.toNat < 2 ^ 32 := x.val.toNat_lt
    rw [decodeBits_encodeBits _ ⟨4, rfl⟩, BitVec.toNat_ofNat, Nat.mod_eq_of_lt small]
    exact Char.ofNat_toNat x
  decode_congr f g same := by
    change Char.ofNat (decodeBits 32 f).toNat = Char.ofNat (decodeBits 32 g).toNat
    rw [decodeBits_congr (w := 32) same]
  align_isPowerOfTwo := ⟨2, rfl⟩
  align_dvd_size := Nat.dvd_refl _

instance : LawfulElement String where
  decode_encode _ := rfl
  decode_congr f g same := by
    simp only [decode]
    rw [same 0 (by decide)]
  align_isPowerOfTwo := ⟨3, rfl⟩
  align_dvd_size := ⟨2, rfl⟩

instance : LawfulElement Unit where
  decode_encode _ := rfl
  decode_congr _ _ _ := rfl
  align_isPowerOfTwo := ⟨0, rfl⟩
  align_dvd_size := Nat.dvd_zero _

/-! ## Compound elements -/

section Compound

variable {α β : Type} [Element α] [Element β] [LawfulElement α] [LawfulElement β]

theorem align_pos (α : Type) [Element α] [LawfulElement α] : 0 < align α :=
  Nat.pos_of_isPowerOfTwo LawfulElement.align_isPowerOfTwo

instance : LawfulElement (α × β) where
  decode_encode p := by
    have gap : size α ≤ pairOffset α β := Layout.le_roundUp (align_pos β)
    have first : (decode (encode p) : α) = p.1 := by
      rw [← LawfulElement.decode_encode p.1]
      exact LawfulElement.decode_congr _ _ fun i hi => if_pos hi
    have second : (decode fun i => encode p (pairOffset α β + i) : β) = p.2 := by
      rw [← LawfulElement.decode_encode p.2]
      refine LawfulElement.decode_congr _ _ fun i hi => ?_
      change (if pairOffset α β + i < size α then _ else if _ then _ else _) = _
      rw [if_neg (by omega), if_pos (by omega), Nat.add_sub_cancel_left]
    exact Prod.ext first second
  decode_congr f g same := by
    have gap : size α ≤ pairOffset α β := Layout.le_roundUp (align_pos β)
    have whole : pairOffset α β + size β ≤ size (α × β) :=
      Layout.le_roundUp (Nat.lt_of_lt_of_le (align_pos α) (Nat.le_max_left _ _))
    have first : (decode f : α) = decode g :=
      LawfulElement.decode_congr _ _ fun i hi => same i (by omega)
    have second : (decode fun i => f (pairOffset α β + i) : β) =
        decode fun i => g (pairOffset α β + i) :=
      LawfulElement.decode_congr _ _ fun i hi => same _ (by omega)
    exact Prod.ext first second
  align_isPowerOfTwo :=
    isPowerOfTwo_max LawfulElement.align_isPowerOfTwo LawfulElement.align_isPowerOfTwo
  align_dvd_size := Layout.dvd_roundUp _ _

instance {n : Nat} : LawfulElement (Vector α n) where
  decode_encode xs := by
    apply Vector.ext
    intro k hk
    change (Vector.ofFn fun k : Fin n => decode fun i => encode xs (k * size α + i))[k] = xs[k]
    rw [Vector.getElem_ofFn, ← LawfulElement.decode_encode xs[k]]
    refine LawfulElement.decode_congr _ _ fun i hi => ?_
    have quotient : (k * size α + i) / size α = k := by
      rw [Nat.mul_comm, Nat.mul_add_div (by omega), Nat.div_eq_of_lt hi, Nat.add_zero]
    have remainder : (k * size α + i) % size α = i := by
      rw [Nat.mul_comm, Nat.mul_add_mod, Nat.mod_eq_of_lt hi]
    change (match xs[(k * size α + i) / size α]? with
      | some x => encode x ((k * size α + i) % size α)
      | none => .byte 0) = _
    rw [quotient, remainder, Vector.getElem?_eq_getElem hk]
  decode_congr f g same := by
    apply Vector.ext
    intro k hk
    change (Vector.ofFn fun k : Fin n => (decode fun i => f (k * size α + i) : α))[k] =
      (Vector.ofFn fun k : Fin n => (decode fun i => g (k * size α + i) : α))[k]
    rw [Vector.getElem_ofFn, Vector.getElem_ofFn]
    refine LawfulElement.decode_congr _ _ fun i hi => same _ ?_
    have whole : (k + 1) * size α ≤ n * size α := Nat.mul_le_mul_right _ hk
    rw [Nat.add_mul] at whole
    change k * size α + i < n * size α
    omega
  align_isPowerOfTwo := LawfulElement.align_isPowerOfTwo (α := α)
  align_dvd_size :=
    Nat.dvd_trans (LawfulElement.align_dvd_size (α := α)) (Nat.dvd_mul_left (size α) n)

end Compound

instance : LawfulElement Vec3 where
  decode_encode v := by
    have a : (decode (encode v) : Binary32) = v.a := by
      rw [← LawfulElement.decode_encode v.a]
      exact LawfulElement.decode_congr _ _ fun i hi => if_pos hi
    have b : (decode fun i => encode v (4 + i) : Binary32) = v.b := by
      rw [← LawfulElement.decode_encode v.b]
      refine LawfulElement.decode_congr _ _ fun i hi => ?_
      change i < 4 at hi
      change (if 4 + i < 4 then _ else if 4 + i < 8 then _ else _) = _
      rw [if_neg (by omega), if_pos (by omega), Nat.add_sub_cancel_left]
    have c : (decode fun i => encode v (8 + i) : Binary32) = v.c := by
      rw [← LawfulElement.decode_encode v.c]
      refine LawfulElement.decode_congr _ _ fun i hi => ?_
      change (if 8 + i < 4 then _ else if 8 + i < 8 then _ else _) = _
      rw [if_neg (by omega), if_neg (by omega), Nat.add_sub_cancel_left]
    change Vec3.mk _ _ _ = v
    rw [a, b, c]
  decode_congr f g same := by
    change ∀ i < 12, f i = g i at same
    have a : (decode f : Binary32) = decode g :=
      LawfulElement.decode_congr _ _ fun i hi => same i (by change i < 4 at hi; omega)
    have b : (decode fun i => f (4 + i) : Binary32) = decode fun i => g (4 + i) :=
      LawfulElement.decode_congr _ _ fun i hi => same _ (by change i < 4 at hi; omega)
    have c : (decode fun i => f (8 + i) : Binary32) = decode fun i => g (8 + i) :=
      LawfulElement.decode_congr _ _ fun i hi => same _ (by change i < 4 at hi; omega)
    change Vec3.mk _ _ _ = Vec3.mk _ _ _
    rw [a, b, c]
  align_isPowerOfTwo := ⟨2, rfl⟩
  align_dvd_size := ⟨3, rfl⟩

instance : LawfulElement Wide where
  decode_encode _ := rfl
  decode_congr f g same := by
    change Wide.mk _ = Wide.mk _
    rw [same 0 (by decide)]
  align_isPowerOfTwo := ⟨7, rfl⟩
  align_dvd_size := Nat.dvd_refl _

end Element

/-! ## Table entries -/

namespace Entry

variable {κ ν : Type} [Element κ] [Element ν] [LawfulElement κ] [LawfulElement ν]

/-- The parts of an entry follow one another without overlap, and the entry holds them all. -/
theorem offsets (κ ν : Type) [Element κ] [Element ν] [LawfulElement κ] [LawfulElement ν] :
    hashSize ≤ keyOffset κ ∧ keyOffset κ + Element.size κ ≤ valueOffset κ ν ∧
      valueOffset κ ν + Element.size ν ≤ size κ ν :=
  ⟨Layout.le_roundUp (Element.align_pos κ), Layout.le_roundUp (Element.align_pos ν),
    Layout.le_roundUp (Nat.lt_of_lt_of_le (by decide : 0 < hashSize) (Nat.le_max_left _ _))⟩

instance : LawfulElement (Entry κ ν) where
  decode_encode e := by
    obtain ⟨afterHash, afterKey, _⟩ := offsets κ ν
    have hash : Element.decodeBits 64 (Element.encode e) = e.hash.toBitVec := by
      rw [← Element.decodeBits_encodeBits e.hash.toBitVec ⟨8, rfl⟩]
      exact Element.decodeBits_congr fun i hi => if_pos hi
    have key : (Element.decode fun i => Element.encode e (keyOffset κ + i) : κ) = e.key := by
      rw [← LawfulElement.decode_encode e.key]
      refine LawfulElement.decode_congr _ _ fun i hi => ?_
      change (if _ then _ else if _ then _ else if _ then _ else _) = _
      rw [if_neg (by omega), if_neg (by omega), if_pos (by omega), Nat.add_sub_cancel_left]
    have value : (Element.decode fun i => Element.encode e (valueOffset κ ν + i) : ν) = e.value := by
      rw [← LawfulElement.decode_encode e.value]
      refine LawfulElement.decode_congr _ _ fun i hi => ?_
      change (if _ then _ else if _ then _ else if _ then _ else if _ then _ else if _ then _
        else _) = _
      rw [if_neg (by omega), if_neg (by omega), if_neg (by omega), if_neg (by omega),
        if_pos (by omega), Nat.add_sub_cancel_left]
    change Entry.mk (UInt64.ofBitVec _) _ _ = e
    rw [hash, key, value]
  decode_congr f g same := by
    obtain ⟨afterHash, afterKey, afterValue⟩ := offsets κ ν
    change ∀ i < size κ ν, f i = g i at same
    have hash : Element.decodeBits 64 f = Element.decodeBits 64 g :=
      Element.decodeBits_congr fun i hi => same i (by change i < hashSize at hi; omega)
    have key : (Element.decode fun i => f (keyOffset κ + i) : κ) =
        Element.decode fun i => g (keyOffset κ + i) :=
      LawfulElement.decode_congr _ _ fun i hi => same _ (by omega)
    have value : (Element.decode fun i => f (valueOffset κ ν + i) : ν) =
        Element.decode fun i => g (valueOffset κ ν + i) :=
      LawfulElement.decode_congr _ _ fun i hi => same _ (by omega)
    change Entry.mk _ _ _ = Entry.mk _ _ _
    rw [hash, key, value]
  align_isPowerOfTwo :=
    isPowerOfTwo_max ⟨3, rfl⟩
      (isPowerOfTwo_max LawfulElement.align_isPowerOfTwo LawfulElement.align_isPowerOfTwo)
  align_dvd_size := Layout.dvd_roundUp _ _

omit [LawfulElement κ] [LawfulElement ν] in
/-- A slot whose bytes are all zero is empty. -/
theorem isEmpty_decode_zero :
    (Element.decode (fun _ => Cell.byte 0) : Entry κ ν).isEmpty = true := by
  rfl

end Entry

end AlignedSlots
