import Mathlib
import AlignedSlots.Proofs.Container.SlotGrowth

/-!
# The growth policy in every width

The policy computes with numbers of a fixed width: it halves a request by a shift, adds with a check, and
compares with a quotient in place of a product.  `grownCapacity_exact` says over the naturals what comes of
that for every width.  A request is granted exactly where the size in bytes of half as many slots again,
rounded up, is a number of the width, and no operation on the way overflows.
-/

namespace AlignedSlots

namespace Slots

theorem grown_mono {requested more : Nat} (h : requested ≤ more) : grown requested ≤ grown more := by
  rw [grown_eq, grown_eq]
  omega

end Slots

section GrowthPolicy

variable {width current requested more elementSize answer : Nat}

/-- The policy answers a capacity for one of two reasons. -/
theorem grownCapacity_eq_ok_iff (hrequested : requested ≤ Unsigned.greatest width) :
    grownCapacity width current requested elementSize = .ok answer ↔
      (requested ≤ current ∧ answer = current) ∨
      (current < requested ∧ answer = Slots.grown requested ∧
        answer * max elementSize 1 ≤ Unsigned.greatest width) := by
  rw [Slots.grownCapacity_eq current elementSize hrequested]
  constructor
  · intro h
    split at h
    · next hkeep =>
      cases h
      exact .inl ⟨hkeep, rfl⟩
    split at h
    · next hkeep hfit =>
      cases h
      exact .inr ⟨Nat.lt_of_not_le hkeep, rfl, hfit⟩
    · cases h
  · rintro (⟨hkeep, rfl⟩ | ⟨hlt, rfl, hfit⟩)
    · exact if_pos hkeep
    · rw [if_neg (Nat.not_le.mpr hlt), if_pos hfit]

/-- Where it answers none it refuses the request, and no operation of it faults. -/
theorem grownCapacity_cases (current elementSize : Nat)
    (hrequested : requested ≤ Unsigned.greatest width) :
    (∃ answer, grownCapacity width current requested elementSize = .ok answer) ∨
      grownCapacity width current requested elementSize = .error (.error .refused) := by
  rw [Slots.grownCapacity_eq current elementSize hrequested]
  split
  · exact .inl ⟨_, rfl⟩
  split
  · exact .inl ⟨_, rfl⟩
  · exact .inr rfl

/-- A capacity that the policy answers suffices, and it is a number of the width. -/
theorem grownCapacity_bounds (hcurrent : current ≤ Unsigned.greatest width)
    (hrequested : requested ≤ Unsigned.greatest width)
    (h : grownCapacity width current requested elementSize = .ok answer) :
    max current requested ≤ answer ∧ answer ≤ Unsigned.greatest width := by
  rcases (grownCapacity_eq_ok_iff hrequested).mp h with ⟨hkeep, rfl⟩ | ⟨hlt, rfl, hfit⟩
  · omega
  · have henough := Slots.le_grown requested
    have hpos : 0 < max elementSize 1 := by omega
    have hmul := Nat.le_mul_of_pos_right (Slots.grown requested) hpos
    omega

/-- A capacity that the policy has chosen has a size in bytes that is a number of the width. -/
theorem grownCapacity_size (hrequested : requested ≤ Unsigned.greatest width)
    (h : grownCapacity width current requested elementSize = .ok answer) (hne : answer ≠ current) :
    answer * elementSize ≤ Unsigned.greatest width := by
  rcases (grownCapacity_eq_ok_iff hrequested).mp h with ⟨_, hsame⟩ | ⟨_, _, hfit⟩
  · exact absurd hsame hne
  · exact Nat.le_trans (Nat.mul_le_mul_left _ (Nat.le_max_left _ _)) hfit

/-- Where the policy grants a request it grants every smaller one, with a capacity that is no greater. -/
theorem grownCapacity_mono (hmore : more ≤ Unsigned.greatest width) (hle : requested ≤ more)
    (h : grownCapacity width current more elementSize = .ok answer) :
    ∃ less, less ≤ answer ∧ grownCapacity width current requested elementSize = .ok less := by
  have hrequested : requested ≤ Unsigned.greatest width := Nat.le_trans hle hmore
  have hgrown := Slots.grown_mono hle
  have henough := Slots.le_grown more
  rcases (grownCapacity_eq_ok_iff hmore).mp h with ⟨hkeep, rfl⟩ | ⟨hlt, rfl, hfit⟩
  · exact ⟨answer, Nat.le_refl _, (grownCapacity_eq_ok_iff hrequested).mpr (.inl ⟨Nat.le_trans hle hkeep, rfl⟩)⟩
  · by_cases hkeep : requested ≤ current
    · exact ⟨current, by omega, (grownCapacity_eq_ok_iff hrequested).mpr (.inl ⟨hkeep, rfl⟩)⟩
    · have hfits := Nat.le_trans (Nat.mul_le_mul_right (max elementSize 1) hgrown) hfit
      exact ⟨_, hgrown, (grownCapacity_eq_ok_iff hrequested).mpr (.inr ⟨Nat.lt_of_not_le hkeep, rfl, hfits⟩)⟩

/-- **The growth policy is exact** in every width: a capacity that suffices is kept, and otherwise the
request decides by its product with the size of an element, over the naturals, with no fault in any case.
An answer suffices, a new capacity has a size in bytes of the width, and the answers are monotone in the
request: they never decrease, and above a refused request all are refused. -/
theorem grownCapacity_exact (hcurrent : current ≤ Unsigned.greatest width)
    (hrequested : requested ≤ Unsigned.greatest width) :
    (grownCapacity width current requested elementSize =
      if requested ≤ current then .ok current
      else if (3 * requested) ⌈/⌉ 2 * max elementSize 1 ≤ 2 ^ width - 1
        then .ok ((3 * requested) ⌈/⌉ 2)
        else .error (.error .refused)) ∧
    (∀ fault, grownCapacity width current requested elementSize ≠ .error (.fault fault)) ∧
    (∀ answer, grownCapacity width current requested elementSize = .ok answer →
      max current requested ≤ answer ∧ answer ≤ 2 ^ width - 1 ∧
      (answer ≠ current → answer * elementSize ≤ 2 ^ width - 1)) ∧
    ∀ more, requested ≤ more → more ≤ 2 ^ width - 1 →
      (∀ answer, grownCapacity width current more elementSize = .ok answer →
        ∃ less, less ≤ answer ∧ grownCapacity width current requested elementSize = .ok less) ∧
      (grownCapacity width current requested elementSize = .error (.error .refused) →
        grownCapacity width current more elementSize = .error (.error .refused)) := by
  refine ⟨?_, ?_, ?_, ?_⟩
  · rw [Slots.grownCapacity_eq current elementSize hrequested, Slots.grown_eq_ceilDiv]
    rfl
  · intro fault hfault
    rcases grownCapacity_cases current elementSize hrequested with ⟨answer, h⟩ | h
    · simp [h] at hfault
    · simp [h] at hfault
  · intro answer hanswer
    obtain ⟨henough, hholds⟩ := grownCapacity_bounds hcurrent hrequested hanswer
    exact ⟨henough, hholds, grownCapacity_size hrequested hanswer⟩
  · intro more hle hmore
    refine ⟨fun answer hanswer => grownCapacity_mono hmore hle hanswer, ?_⟩
    intro hrefused
    -- An answer to the greater request would give one to the smaller request.
    rcases grownCapacity_cases current elementSize hmore with ⟨answer, hanswer⟩ | h
    · obtain ⟨less, _, hless⟩ := grownCapacity_mono hmore hle hanswer
      simp [hrefused] at hless
    · exact h

end GrowthPolicy

/-- In bytes 126 slots of two bytes are the answer to 84, and 126 slots of three bytes are too many. -/
theorem grownCapacity_exact_bytes :
    grownCapacity 8 0 84 2 = .ok 126 ∧ grownCapacity 8 0 84 3 = .error (.error .refused) := by
  have hcurrent : 0 ≤ Unsigned.greatest 8 := by decide
  have hrequested : 84 ≤ Unsigned.greatest 8 := by decide
  constructor
  · rw [(grownCapacity_exact hcurrent hrequested).1, ceil_half]
    rfl
  · rw [(grownCapacity_exact hcurrent hrequested).1, ceil_half]
    rfl

end AlignedSlots
