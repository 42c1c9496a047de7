import Mathlib

/-!
# Slots on a ring

A probe goes from slot to slot and from the last one to the first.  `Cyclic.steps c h i` is how many
slots on `i` lies from `h` in a ring of `c` slots, so that the slots a probe from `h` has seen before
it comes to `i` are the ones fewer steps on.  It is written with a case distinction and not with a
remainder: facts about cyclic paths are then linear, and `omega` proves them.
-/

namespace AlignedSlots

namespace Cyclic

/-- How many slots on `i` lies from `h`. -/
def steps (c h i : Nat) : Nat := if h ≤ i then i - h else i + c - h

/-- The slot after `i`. -/
def next (c i : Nat) : Nat := if i + 1 < c then i + 1 else 0

variable {c h i j e : Nat}

theorem steps_lt (hi : i < c) (hh : h < c) : steps c h i < c := by
  unfold steps
  split <;> omega

theorem steps_self (c h : Nat) : steps c h h = 0 := by
  simp [steps]

theorem next_lt (hc : 0 < c) : next c i < c := by
  unfold next
  split <;> omega

/-- Different slots are different numbers of steps on. -/
theorem eq_of_steps_eq (hi : i < c) (hj : j < c) (hh : h < c) (heq : steps c h i = steps c h j) :
    i = j := by
  unfold steps at heq
  split at heq <;> split at heq <;> omega

/-- Going on by one slot is one more step, short of the full round. -/
theorem steps_next (hi : i < c) (hh : h < c) (hlt : steps c h i + 1 < c) :
    steps c h (next c i) = steps c h i + 1 := by
  unfold steps next at *
  split at hlt <;> split <;> split <;> omega

/-- The slot that is a number of steps on is the one the remainder names. -/
theorem steps_add_mod (hh : h < c) (hlt : j < c) : steps c h ((h + j) % c) = j := by
  by_cases hwrap : h + j < c
  · rw [Nat.mod_eq_of_lt hwrap]
    unfold steps
    rw [if_pos (by omega)]
    omega
  · have hmod : (h + j) % c = h + j - c := by
      rw [Nat.mod_eq_sub_mod (by omega), Nat.mod_eq_of_lt (by omega)]
    rw [hmod]
    unfold steps
    rw [if_neg (by omega)]
    omega

theorem add_steps_mod (hi : i < c) (hh : h < c) : (h + steps c h i) % c = i := by
  have hmod : (h + steps c h i) % c < c := Nat.mod_lt _ (by omega)
  exact eq_of_steps_eq hmod hi hh (steps_add_mod hh (steps_lt hi hh))

/-! ## Cyclic order

Three slots that come in the order `i`, `p`, `z` seen from `e` come in one of its rotations seen from
`h`.  Where `h` has `p` before `i`, the round starts between `i` and `p`, and `z` comes before `i` as
well. -/

/-- The two cases of `steps`, for a fact about several of them. -/
theorem steps_cases (c h i : Nat) :
    h ≤ i ∧ steps c h i = i - h ∨ i < h ∧ steps c h i = i + c - h := by
  unfold steps
  split <;> omega

section Order

variable {p z s : Nat}

theorem steps_lt_of_order (he : e < c) (hh : h < c) (hi : i < c) (hz : z < c)
    (hip : steps c e i < steps c e p) (hpz : steps c e p < steps c e z)
    (hpath : steps c h p < steps c h i) : steps c h z < steps c h i := by
  have hei := steps_cases c e i
  have hep := steps_cases c e p
  have hez := steps_cases c e z
  have hhi := steps_cases c h i
  have hhp := steps_cases c h p
  have hhz := steps_cases c h z
  omega

/-- Seen from `e`, the slots come as `s`, `p`, `i`; where `s` comes before `i`, so does `p`. -/
theorem steps_lt_of_between (he : e < c) (hh : h < c) (hi : i < c) (hp : p < c)
    (hsp : steps c e s < steps c e p) (hpi : steps c e p < steps c e i)
    (hpath : steps c h s < steps c h i) : steps c h p < steps c h i := by
  have hes := steps_cases c e s
  have hep := steps_cases c e p
  have hei := steps_cases c e i
  have hhs := steps_cases c h s
  have hhp := steps_cases c h p
  have hhi := steps_cases c h i
  omega

end Order

/-! ## Masks -/

/-- The bits below a power of two are the remainder. -/
theorem and_mask {n : Nat} (power : c.isPowerOfTwo) : n &&& (c - 1) = n % c := by
  obtain ⟨k, rfl⟩ := power
  exact Nat.and_two_pow_sub_one_eq_mod n k

theorem succ_and_mask (power : c.isPowerOfTwo) (hi : i < c) : (i + 1) &&& (c - 1) = next c i := by
  rw [and_mask power]
  unfold next
  split
  · next hlt => exact Nat.mod_eq_of_lt hlt
  · next hge =>
    have heq : i + 1 = c := by omega
    rw [heq, Nat.mod_self]

end Cyclic

end AlignedSlots
