import Mathlib
import AlignedSlots.Proofs.Memory.Rounding

/-!
# Rounding up in every format

Rounding up adds a mask to the bits of a number and clears the bits of the mask.  `IntFormat.roundUp_exact`
says over the integers what that is, for every width, signed or unsigned, and for negative numbers too: the
least multiple of the alignment from the number on, wherever the format holds it.

The sum with the mask may be greater than the multiple.  It overflows nevertheless only where the multiple
does, because the format ends just below a multiple of each power of two that it holds
(`IntFormat.dvd_greatest_add_one`).
-/

namespace AlignedSlots

/-! ## Least multiples -/

/-- The least multiple of `align` that is not below `n`. -/
def leastMultiple (n align : Int) : Int := (n + (align - 1)) / align * align

section LeastMultiple

variable {n n' align m : Int}

theorem dvd_leastMultiple (n align : Int) : align ∣ leastMultiple n align := Int.dvd_mul_left _ _

theorem le_leastMultiple (h : 0 < align) : n ≤ leastMultiple n align := by
  have hlt := Int.lt_ediv_add_one_mul_self (n + (align - 1)) h
  rw [Int.add_mul] at hlt
  unfold leastMultiple
  omega

theorem leastMultiple_le_add (h : 0 < align) : leastMultiple n align ≤ n + (align - 1) :=
  Int.ediv_mul_le _ (Int.ne_of_gt h)

theorem leastMultiple_le_of_dvd (h : 0 < align) (hdvd : align ∣ m) (hle : n ≤ m) :
    leastMultiple n align ≤ m := by
  -- Multiples that are less than `align` apart are the same.
  have habove := leastMultiple_le_add (n := n) h
  by_contra hlt
  have hstep : align ≤ leastMultiple n align - m := by
    apply Int.le_of_dvd (by omega)
    exact Int.dvd_sub (dvd_leastMultiple n align) hdvd
  omega

theorem isLeast_leastMultiple (h : 0 < align) :
    IsLeast {m | align ∣ m ∧ n ≤ m} (leastMultiple n align) :=
  ⟨⟨dvd_leastMultiple n align, le_leastMultiple h⟩, fun _ hm => leastMultiple_le_of_dvd h hm.1 hm.2⟩

theorem leastMultiple_of_dvd (h : 0 < align) (hdvd : align ∣ m) : leastMultiple m align = m :=
  Int.le_antisymm (leastMultiple_le_of_dvd h hdvd (Int.le_refl m)) (le_leastMultiple h)

theorem leastMultiple_mono (h : 0 < align) (hle : n ≤ n') :
    leastMultiple n align ≤ leastMultiple n' align :=
  leastMultiple_le_of_dvd h (dvd_leastMultiple n' align) (Int.le_trans hle (le_leastMultiple h))

end LeastMultiple

namespace IntFormat

variable {f : IntFormat} {n m align : Int} {k : Nat}

/-! ## What a format holds -/

theorem greatest_add_one (f : IntFormat) :
    f.greatest + 1 = 2 ^ (if f.signed then f.width - 1 else f.width) := by
  unfold greatest
  split <;> omega

/-- A power of two that the format holds divides the number after its greatest one. -/
theorem dvd_greatest_add_one (h : f.Holds (2 ^ k)) : (2 : Int) ^ k ∣ f.greatest + 1 := by
  have hlt : (2 : Int) ^ k < f.greatest + 1 := Int.lt_add_one_of_le h.2
  rw [greatest_add_one] at hlt ⊢
  have hexponent := (pow_lt_pow_iff_right₀ (by decide : (1 : Int) < 2)).mp hlt
  exact pow_dvd_pow 2 (Nat.le_of_lt hexponent)

theorem least_le_zero (f : IntFormat) : f.least ≤ 0 := by
  have hpos : (0 : Int) < 2 ^ (f.width - 1) := by positivity
  unfold least
  split <;> omega

theorem holds_mask (h : f.Holds (2 ^ k)) : f.Holds (2 ^ k - 1) := by
  have hpos : (0 : Int) < 2 ^ k := by positivity
  have hleast := f.least_le_zero
  have hgreatest := h.2
  constructor <;> omega

/-- **The sum with the mask** fits exactly where the least multiple does. -/
theorem holds_add_mask_iff (hn : f.Holds n) (hk : f.Holds (2 ^ k)) :
    f.Holds (n + (2 ^ k - 1)) ↔ f.Holds (leastMultiple n (2 ^ k)) := by
  have hpos : (0 : Int) < 2 ^ k := by positivity
  have hbelow := le_leastMultiple (n := n) hpos
  have habove := leastMultiple_le_add (n := n) hpos
  have hleast := hn.1
  constructor
  · rintro ⟨_, hgreatest⟩
    constructor <;> omega
  · rintro ⟨_, hgreatest⟩
    have hgap : (2 : Int) ^ k ≤ f.greatest + 1 - leastMultiple n (2 ^ k) := by
      apply Int.le_of_dvd (by omega)
      exact Int.dvd_sub (dvd_greatest_add_one hk) (dvd_leastMultiple n _)
    constructor <;> omega

/-! ## Clearing bits -/

/-- The bits of a number that the format holds stand for it. -/
theorem value_bits (h : f.Holds n) (hpos : f.signed → 0 < f.width) : f.value (f.bits n) = n := by
  obtain ⟨hleast, hgreatest⟩ := h
  unfold value bits
  by_cases hsigned : f.signed = true
  · simp only [least, greatest, hsigned, if_true] at hleast hgreatest ⊢
    exact BitVec.toInt_ofInt_eq_self (hpos hsigned) hleast (by omega)
  · rw [Bool.not_eq_true] at hsigned
    simp only [least, greatest, hsigned, Bool.false_eq_true, if_false] at hleast hgreatest ⊢
    rw [BitVec.toNat_ofInt, Int.toNat_of_nonneg (Int.emod_nonneg _ (by positivity))]
    apply Int.emod_eq_of_lt hleast
    push_cast
    omega

/-- Clearing low bits of a pattern rounds down the signed number that it stands for, if the sign is none
of them. -/
theorem toInt_and_not_mask {w : Nat} (x : BitVec w) (hk : k < w) :
    (x &&& ~~~ BitVec.ofNat w (2 ^ k - 1)).toInt = x.toInt / 2 ^ k * 2 ^ k := by
  obtain ⟨r, rfl⟩ : ∃ r, w = k + (r + 1) := ⟨w - k - 1, by omega⟩
  have hpos : 0 < 2 ^ k := Nat.two_pow_pos k
  have hpow : 2 ^ (k + (r + 1)) = 2 * 2 ^ r * 2 ^ k := by ring
  have hhalf : ∀ q, 2 * (q * 2 ^ k) < 2 * 2 ^ r * 2 ^ k ↔ q < 2 ^ r := by
    intro q
    rw [Nat.mul_assoc, Nat.mul_lt_mul_left (by decide), Nat.mul_lt_mul_right hpos]
  have hsign : 2 * x.toNat < 2 * 2 ^ r * 2 ^ k ↔ x.toNat / 2 ^ k < 2 ^ r := by
    rw [Nat.mul_assoc, Nat.mul_lt_mul_left (by decide), Nat.div_lt_iff_lt_mul hpos]
  -- The sign is the same before and after: the pattern is in the upper half, or it is not.
  rw [BitVec.toInt_eq_toNat_cond, BitVec.toInt_eq_toNat_cond, toNat_and_not_mask, hpow]
  simp only [hhalf, hsign]
  by_cases hupper : x.toNat / 2 ^ k < 2 ^ r
  · rw [if_pos hupper, if_pos hupper]
    push_cast
    rfl
  · rw [if_neg hupper, if_neg hupper]
    push_cast
    rw [Int.sub_mul_ediv_right _ _ (by positivity), Int.sub_mul]

/-- **Clearing the mask** of a power of two rounds a number down. -/
theorem clear_mask (hn : f.Holds n) (hk : f.Holds (2 ^ k)) :
    f.clear n (2 ^ k - 1) = n / 2 ^ k * 2 ^ k := by
  have hmask : f.bits (2 ^ k - 1) = BitVec.ofNat f.width (2 ^ k - 1) := by
    unfold bits
    rw [← BitVec.ofInt_natCast, Nat.cast_sub (Nat.one_le_two_pow)]
    push_cast
    rfl
  have hsign : f.signed → k < f.width := by
    intro hsigned
    have hlt : (2 : Int) ^ k < f.greatest + 1 := Int.lt_add_one_of_le hk.2
    rw [greatest_add_one, if_pos hsigned] at hlt
    have hexponent := (pow_lt_pow_iff_right₀ (by decide : (1 : Int) < 2)).mp hlt
    omega
  have hvalue := value_bits hn fun hsigned => Nat.zero_lt_of_lt (hsign hsigned)
  unfold clear
  rw [hmask]
  conv_rhs => rw [← hvalue]
  unfold value
  split
  · next hsigned => exact toInt_and_not_mask _ (hsign hsigned)
  · rw [toNat_and_not_mask]
    push_cast
    rfl

/-! ## Rounding up -/

/-- Rounding `n` up leads to `m`: both forms answer it where the format holds it, and elsewhere one answers
`none` and the other faults at the sum. -/
structure RoundsTo (f : IntFormat) (align n m : Int) : Prop where
  answers : f.Holds m → f.roundUp? n align = .ok (some m) ∧ f.roundUp n align = .ok m
  overflows : ¬ f.Holds m → f.roundUp? n align = .ok none ∧ f.roundUp n align = .error .addOverflow

theorem roundsTo_leastMultiple (hn : f.Holds n) (hk : f.Holds (2 ^ k)) :
    f.RoundsTo (2 ^ k) n (leastMultiple n (2 ^ k)) := by
  have hmask : f.sub (2 ^ k) 1 = .ok (2 ^ k - 1) := if_pos (holds_mask hk)
  have hiff := holds_add_mask_iff hn hk
  -- Both forms are determined by whether the format holds the sum.
  have hround? : f.roundUp? n (2 ^ k) = .ok (if f.Holds (n + (2 ^ k - 1)) then
      some (f.clear (n + (2 ^ k - 1)) (2 ^ k - 1)) else none) := by
    unfold roundUp?
    rw [hmask]
    rfl
  have hround : f.roundUp n (2 ^ k) =
      (f.add n (2 ^ k - 1) >>= fun sum => .ok (f.clear sum (2 ^ k - 1))) := by
    unfold roundUp
    rw [hmask]
    rfl
  constructor
  · intro hm
    have hsum := hiff.mpr hm
    have hclear : f.clear (n + (2 ^ k - 1)) (2 ^ k - 1) = leastMultiple n (2 ^ k) :=
      clear_mask hsum hk
    have hadd : f.add n (2 ^ k - 1) = .ok (n + (2 ^ k - 1)) := if_pos hsum
    rw [hround?, hround, if_pos hsum, hadd, hclear]
    refine ⟨rfl, ?_⟩
    show Except.ok (f.clear _ _) = _
    rw [hclear]
  · intro hm
    have hsum := mt hiff.mp hm
    have hadd : f.add n (2 ^ k - 1) = .error .addOverflow := if_neg hsum
    rw [hround?, hround, if_neg hsum, hadd]
    exact ⟨rfl, rfl⟩

/-- What one of the two forms answers is where rounding leads, and the format holds it. -/
theorem RoundsTo.eq_of_answer {answer : Int} (h : f.RoundsTo align n m)
    (hanswer : f.roundUp? n align = .ok (some answer) ∨ f.roundUp n align = .ok answer) :
    f.Holds m ∧ answer = m := by
  by_cases hm : f.Holds m
  · obtain ⟨hround?, hround⟩ := h.answers hm
    rw [hround?, hround] at hanswer
    refine ⟨hm, ?_⟩
    rcases hanswer with heq | heq
    · exact (Option.some.inj (Except.ok.inj heq)).symm
    · exact (Except.ok.inj heq).symm
  · obtain ⟨hround?, hround⟩ := h.overflows hm
    rw [hround?, hround] at hanswer
    rcases hanswer with heq | heq
    · cases heq
    · cases heq

/-- **Rounding up is exact** in every format: both forms lead to the least multiple `m` of the power of two
that is not below `n`, whatever sign `n` has, and fail only where the format does not hold `m`.  Rounding
`m` again changes nothing, and a greater number that can be rounded up has an answer at least as great. -/
theorem roundUp_exact (hn : f.Holds n) (power : ∃ k : Nat, align = 2 ^ k) (halign : f.Holds align) :
    ∃ m, IsLeast {m | align ∣ m ∧ n ≤ m} m ∧ m - n < align ∧ f.RoundsTo align n m ∧
      (f.Holds m → f.RoundsTo align m m) ∧
      ∀ n' m', f.Holds n' → n ≤ n' →
        (f.roundUp? n' align = .ok (some m') ∨ f.roundUp n' align = .ok m') →
        f.Holds m ∧ m ≤ m' := by
  obtain ⟨k, rfl⟩ := power
  have hpos : (0 : Int) < 2 ^ k := by positivity
  have hleast := isLeast_leastMultiple (n := n) hpos
  have hbelow := leastMultiple_le_add (n := n) hpos
  refine ⟨leastMultiple n (2 ^ k), hleast, by omega, roundsTo_leastMultiple hn halign, ?_, ?_⟩
  · intro hm
    have hagain := roundsTo_leastMultiple hm halign
    rwa [leastMultiple_of_dvd hpos (dvd_leastMultiple n _)] at hagain
  · intro n' m' hn' hle hanswer
    obtain ⟨hheld, rfl⟩ := (roundsTo_leastMultiple hn' halign).eq_of_answer hanswer
    have hmono := leastMultiple_mono hpos hle
    have hlow := hn.1
    have hhigh := hheld.2
    have hfrom := hleast.1.2
    exact ⟨⟨by omega, by omega⟩, hmono⟩

/-- In signed bytes `-5` is rounded up to `-4`, and in unsigned bytes `250` has no multiple of eight above
it. -/
theorem roundUp_exact_bytes :
    IntFormat.roundUp ⟨8, true⟩ (-5) 4 = .ok (-4) ∧
      IntFormat.roundUp ⟨8, false⟩ 250 8 = .error .addOverflow := by
  constructor
  · obtain ⟨m, hleast, _, hto, _⟩ :=
      roundUp_exact (f := ⟨8, true⟩) (n := -5) (by decide)
        (⟨2, rfl⟩ : ∃ k : Nat, (4 : Int) = 2 ^ k) (by decide)
    have hm : m = -4 := by
      apply hleast.unique
      refine ⟨⟨by decide, by decide⟩, ?_⟩
      rintro m ⟨⟨q, rfl⟩, hle⟩
      omega
    subst hm
    exact (hto.answers (by decide)).2
  · obtain ⟨m, hleast, _, hto, _⟩ :=
      roundUp_exact (f := ⟨8, false⟩) (n := 250) (by decide)
        (⟨3, rfl⟩ : ∃ k : Nat, (8 : Int) = 2 ^ k) (by decide)
    have hm : m = 256 := by
      apply hleast.unique
      refine ⟨⟨by decide, by decide⟩, ?_⟩
      rintro m ⟨⟨q, rfl⟩, hle⟩
      omega
    subst hm
    exact (hto.overflows (by decide)).2

end IntFormat

end AlignedSlots
