import Mathlib
import AlignedSlots.Element.Lawful

/-!
# Rounding words up

`IntFormat.roundUp` works on bits: it adds a mask and clears its bits.  Over the naturals that is
`Layout.roundUp`, the least multiple of the alignment from a number on.  The main statements are
`Word.roundUp_eq_ok`, which says when rounding succeeds and with what, and the laws of
`Layout.roundUp` that place a payload in its block.
-/

namespace AlignedSlots

/-- Clearing the low bits of a pattern is shifting them out and back. -/
theorem and_not_mask {w : Nat} (x : BitVec w) (k : Nat) :
    (x &&& ~~~ BitVec.ofNat w (2 ^ k - 1)) = (x >>> k) <<< k := by
  apply BitVec.eq_of_getLsbD_eq
  intro i hi
  simp only [BitVec.getLsbD_and, BitVec.getLsbD_not, BitVec.getLsbD_ofNat,
    Nat.testBit_two_pow_sub_one, BitVec.getLsbD_shiftLeft, BitVec.getLsbD_ushiftRight, hi,
    decide_true, Bool.true_and]
  by_cases h : i < k
  · simp [h]
  · simp [h, Nat.add_sub_cancel' (Nat.le_of_not_lt h)]

theorem toNat_and_not_mask {w : Nat} (x : BitVec w) (k : Nat) :
    (x &&& ~~~ BitVec.ofNat w (2 ^ k - 1)).toNat = x.toNat / 2 ^ k * 2 ^ k := by
  rw [and_not_mask, BitVec.toNat_shiftLeft, BitVec.toNat_ushiftRight, Nat.shiftLeft_eq,
    Nat.shiftRight_eq_div_pow]
  exact Nat.mod_eq_of_lt (Nat.lt_of_le_of_lt (Nat.div_mul_le_self _ _) x.isLt)

namespace IntFormat

theorem holds_word_iff (n : Nat) : word.Holds n ↔ n ≤ Word.greatest := by
  show (0 : Int) ≤ n ∧ (n : Int) ≤ 2 ^ 64 - 1 ↔ n ≤ 2 ^ 64 - 1
  omega

/-- Clearing the low bits of a word rounds it down. -/
theorem clear_word {n : Nat} (k : Nat) (h : n ≤ Word.greatest) :
    word.clear n (2 ^ k - 1 : Nat) = (n / 2 ^ k * 2 ^ k : Nat) := by
  have hn : (BitVec.ofNat 64 n).toNat = n := by
    rw [BitVec.toNat_ofNat]
    apply Nat.mod_eq_of_lt
    have : Word.greatest = 2 ^ 64 - 1 := rfl
    omega
  show ((BitVec.ofInt 64 n &&& ~~~ BitVec.ofInt 64 (2 ^ k - 1 : Nat)).toNat : Int) = _
  rw [BitVec.ofInt_natCast, BitVec.ofInt_natCast, toNat_and_not_mask, hn]

/-- The mask of a power of two, if it is a word. -/
theorem sub_one_word {k : Nat} (h : 2 ^ k - 1 ≤ Word.greatest) :
    word.sub (2 ^ k : Nat) 1 = .ok (2 ^ k - 1 : Nat) := by
  have hpos : 0 < 2 ^ k := Nat.two_pow_pos k
  have hmask : ((2 ^ k : Nat) : Int) - 1 = (2 ^ k - 1 : Nat) := by omega
  unfold sub
  rw [hmask, if_pos ((holds_word_iff _).mpr h)]

end IntFormat

/-- Rounding a word up succeeds where the sum with the mask is a word. -/
theorem Word.roundUp_eq_ok {n align : Nat} (power : align.isPowerOfTwo)
    (h : n + (align - 1) ≤ Word.greatest) :
    Word.roundUp n align = .ok (Layout.roundUp n align) := by
  obtain ⟨k, rfl⟩ := power
  have hpos : 0 < 2 ^ k := Nat.two_pow_pos k
  have hsum : (n : Int) + (2 ^ k - 1 : Nat) = (n + (2 ^ k - 1) : Nat) := by omega
  have hadd : IntFormat.word.add n (2 ^ k - 1 : Nat) = .ok (n + (2 ^ k - 1) : Nat) := by
    unfold IntFormat.add
    rw [hsum, if_pos ((IntFormat.holds_word_iff _).mpr h)]
  have hround : IntFormat.word.roundUp n (2 ^ k : Nat) =
      .ok (IntFormat.word.clear (n + (2 ^ k - 1) : Nat) (2 ^ k - 1 : Nat)) := by
    unfold IntFormat.roundUp
    rw [IntFormat.sub_one_word (by omega)]
    show (IntFormat.word.add n (2 ^ k - 1 : Nat) >>= _) = _
    rw [hadd]
    rfl
  unfold Word.roundUp
  rw [hround, IntFormat.clear_word k h]
  show Except.ok ((n + (2 ^ k - 1)) / 2 ^ k * 2 ^ k) = Except.ok ((n + 2 ^ k - 1) / 2 ^ k * 2 ^ k)
  rw [Nat.add_sub_assoc hpos]

/-- Rounding a word up fails where the sum with the mask is no word, or the mask is none. -/
theorem Word.roundUp_of_lt {n align : Nat} (power : align.isPowerOfTwo)
    (h : greatest < n + (align - 1)) :
    Word.roundUp n align =
      .error (if align - 1 ≤ greatest then .addOverflow else .subOverflow) := by
  obtain ⟨k, rfl⟩ := power
  have hpos : 0 < 2 ^ k := Nat.two_pow_pos k
  have hmask : ((2 ^ k : Nat) : Int) - 1 = (2 ^ k - 1 : Nat) := by omega
  have hsum : (n : Int) + (2 ^ k - 1 : Nat) = (n + (2 ^ k - 1) : Nat) := by omega
  have hadd : IntFormat.word.add n (2 ^ k - 1 : Nat) = .error .addOverflow := by
    unfold IntFormat.add
    rw [hsum, if_neg (fun hholds => Nat.not_le.mpr h ((IntFormat.holds_word_iff _).mp hholds))]
  unfold Word.roundUp IntFormat.roundUp
  by_cases hword : 2 ^ k - 1 ≤ greatest
  · rw [if_pos hword, IntFormat.sub_one_word hword]
    show Int.toNat <$> (IntFormat.word.add n (2 ^ k - 1 : Nat) >>= _) = _
    rw [hadd]
    rfl
  · have hsub : IntFormat.word.sub (2 ^ k : Nat) 1 = .error .subOverflow := by
      unfold IntFormat.sub
      rw [hmask, if_neg (fun hholds => hword ((IntFormat.holds_word_iff _).mp hholds))]
    rw [if_neg hword, hsub]
    rfl

theorem Word.eq_of_roundUp_eq_ok {n align m : Nat} (power : align.isPowerOfTwo)
    (h : Word.roundUp n align = .ok m) : m = Layout.roundUp n align := by
  by_cases hfit : n + (align - 1) ≤ greatest
  · rw [Word.roundUp_eq_ok power hfit] at h
    exact (Except.ok.inj h).symm
  · rw [Word.roundUp_of_lt power (Nat.lt_of_not_le hfit)] at h
    cases h

/-- Rounding a word up, or answering that the sum with the mask is no word. -/
theorem Word.roundUp?_eq {n align : Nat} (power : align.isPowerOfTwo)
    (hword : align - 1 ≤ Word.greatest) :
    Word.roundUp? n align =
      .ok (if n + (align - 1) ≤ Word.greatest then some (Layout.roundUp n align) else none) := by
  obtain ⟨k, rfl⟩ := power
  have hpos : 0 < 2 ^ k := Nat.two_pow_pos k
  have hsum : (n : Int) + (2 ^ k - 1 : Nat) = (n + (2 ^ k - 1) : Nat) := by omega
  unfold Word.roundUp? IntFormat.roundUp?
  rw [IntFormat.sub_one_word hword]
  show Except.ok (Option.map Int.toNat (if IntFormat.word.Holds ((n : Int) + (2 ^ k - 1 : Nat)) then
    some _ else none)) = _
  rw [hsum]
  by_cases hfit : n + (2 ^ k - 1) ≤ Word.greatest
  · rw [if_pos ((IntFormat.holds_word_iff _).mpr hfit), if_pos hfit, IntFormat.clear_word k hfit]
    show Except.ok (some ((n + (2 ^ k - 1)) / 2 ^ k * 2 ^ k)) =
      Except.ok (some ((n + 2 ^ k - 1) / 2 ^ k * 2 ^ k))
    rw [Nat.add_sub_assoc hpos]
  · rw [if_neg fun hholds => hfit ((IntFormat.holds_word_iff _).mp hholds), if_neg hfit]
    rfl

namespace Layout

variable {n align : Nat}

theorem roundUp_lt_add (h : 0 < align) : roundUp n align < n + align := by
  unfold roundUp
  have hle := Nat.div_mul_le_self (n + align - 1) align
  omega

/-- Rounding up finds the least multiple. -/
theorem roundUp_le_of_dvd {m : Nat} (h : 0 < align) (hle : n ≤ m) (hdvd : align ∣ m) :
    roundUp n align ≤ m := by
  obtain ⟨q, rfl⟩ := hdvd
  unfold roundUp
  rw [Nat.mul_comm align q]
  apply Nat.mul_le_mul_right
  apply Nat.lt_succ_iff.mp
  apply (Nat.div_lt_iff_lt_mul h).mpr
  have : n ≤ q * align := by rw [Nat.mul_comm]; exact hle
  rw [Nat.succ_mul]
  omega

/-- A multiple stays where it is. -/
theorem roundUp_of_dvd (h : 0 < align) (hdvd : align ∣ n) : roundUp n align = n :=
  Nat.le_antisymm (roundUp_le_of_dvd h (Nat.le_refl n) hdvd) (le_roundUp h)

end Layout

end AlignedSlots
