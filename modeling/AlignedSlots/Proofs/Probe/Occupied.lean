import Mathlib
import AlignedSlots.Proofs.Probe.Row

/-!
# Which slots are occupied

Where a key lies in a row of entries depends on the order in which the keys came.  Which slots hold an
entry does not: `Row.occupied_of_covers` says that a row whose keys are all keys of another row has no
entry where the other one has none.  Two rows with the same keys then occupy the same slots.

The proof looks at a slot `p` that is occupied in the one row and empty in the other, and at the slots
from the last empty one before it up to `p`.  In the first row all of them hold an entry whose home slot
is one of them; in the second row the same keys have to lie there as well, and `p` is not available.
-/

namespace AlignedSlots

namespace Cyclic

variable {c e h i j p : Nat}

/-- A probe that comes to `i` without passing `e` starts behind `e`. -/
theorem steps_pos_of_not_passed (he : e < c) (hh : h < c) (hne : e ≠ i)
    (hpast : ¬ steps c h e < steps c h i) : 0 < steps c e h ∧ steps c e h ≤ steps c e i := by
  have heh := steps_cases c e h
  have hei := steps_cases c e i
  have hhe := steps_cases c h e
  have hhi := steps_cases c h i
  omega

/-- A probe that starts behind `e` and comes to `j` without passing `p` stays between the two. -/
theorem steps_lt_of_not_passed (he : e < c) (hh : h < c) (hj : j < c) (hp : p < c) (hne : p ≠ j)
    (hstart : 0 < steps c e h) (hle : steps c e h ≤ steps c e p)
    (hpast : ¬ steps c h p < steps c h j) : 0 < steps c e j ∧ steps c e j < steps c e p := by
  have heh := steps_cases c e h
  have hej := steps_cases c e j
  have hep := steps_cases c e p
  have hhp := steps_cases c h p
  have hhj := steps_cases c h j
  omega

/-- The way to `p` is shorter from a slot on the way. -/
theorem steps_lt_of_on_way (he : e < c) (hp : p < c) (hpos : 0 < steps c e i)
    (hle : steps c e i ≤ steps c e p) : steps c i p < steps c e p := by
  have hei := steps_cases c e i
  have hep := steps_cases c e p
  have hip := steps_cases c i p
  omega

end Cyclic

namespace Row

open Cyclic

variable {κ ν ν' : Type} {c : Nat} {keying : Keying κ} {row : Row κ ν} {row' : Row κ ν'}

/-- Every key of the second row is a key of the first one. -/
def Covers (keying : Keying κ) (c : Nat) (row : Row κ ν) (row' : Row κ ν') : Prop :=
  ∀ i < c, (row' i).hash ≠ 0 →
    ∃ j < c, Matches keying (row' i).hash (row' i).key (row j)

/-- The slots behind `e` that are fewer than `n` steps away. -/
def stretch (c e n : Nat) : Finset Nat :=
  (Finset.range c).filter fun i => 0 < steps c e i ∧ steps c e i < n

theorem mem_stretch {e n i : Nat} : i ∈ stretch c e n ↔ i < c ∧ 0 < steps c e i ∧ steps c e i < n := by
  unfold stretch
  rw [Finset.mem_filter, Finset.mem_range]

/-- A stretch up to a slot and with it is longer than the one without it. -/
theorem card_stretch_lt {e p : Nat} (hp : p < c) (hpos : 0 < steps c e p) :
    (stretch c e (steps c e p)).card < (stretch c e (steps c e p + 1)).card := by
  refine Finset.card_lt_card ⟨fun i hi => ?_, fun hsub => ?_⟩
  · obtain ⟨hi, hlow, hhigh⟩ := mem_stretch.mp hi
    exact mem_stretch.mpr ⟨hi, hlow, Nat.lt_succ_of_lt hhigh⟩
  · have hmem := hsub (mem_stretch.mpr ⟨hp, hpos, Nat.lt_succ_self _⟩)
    exact Nat.lt_irrefl _ (mem_stretch.mp hmem).2.2

/-- The slots behind the last empty one before an occupied slot, up to that slot. -/
theorem exists_run {p : Nat} (hp : p < c) (hfull : (row p).hash ≠ 0)
    (hspace : ∃ z < c, (row z).hash = 0) :
    ∃ e < c, (row e).hash = 0 ∧ 0 < steps c e p ∧
      ∀ i ∈ stretch c e (steps c e p + 1), (row i).hash ≠ 0 := by
  obtain ⟨z, hz, hzero⟩ := hspace
  have hsome : ∃ n, ∃ e < c, (row e).hash = 0 ∧ steps c e p = n := ⟨_, z, hz, hzero, rfl⟩
  -- The last empty slot before `p` is the one with the shortest way to it.
  obtain ⟨e, he, hnone, hleast⟩ := Nat.find_spec hsome
  refine ⟨e, he, hnone, ?_, fun i hmem hi_empty => ?_⟩
  · rcases Nat.eq_zero_or_pos (steps c e p) with hsame | hpos
    · have heq := eq_of_steps_eq hp he he (hsame.trans (steps_self c e).symm)
      exact absurd (heq ▸ hnone) hfull
    · exact hpos
  · obtain ⟨hi, hpos, hlt⟩ := mem_stretch.mp hmem
    have hshort := steps_lt_of_on_way he hp hpos (Nat.le_of_lt_succ hlt)
    exact Nat.find_min hsome (hleast ▸ hshort) ⟨i, hi, hi_empty, rfl⟩

/-- An entry between an empty slot `e` of its row and a slot `p` that is empty in another row has its
place between the two in the other row as well. -/
theorem Probing.mem_stretch_of_matches (h : Probing keying c row) (h' : Probing keying c row')
    {e p i j : Nat} (he : e < c) (hempty : (row' e).hash = 0) (hp : p < c)
    (hvacant : (row p).hash = 0) (hi : i ∈ stretch c e (steps c e p + 1)) (hfull : (row' i).hash ≠ 0)
    (hj : j < c) (hmatch : Matches keying (row' i).hash (row' i).key (row j)) :
    j ∈ stretch c e (steps c e p) := by
  obtain ⟨hi, _, hhigh⟩ := mem_stretch.mp hi
  obtain ⟨hhash, _⟩ := hmatch
  have hhome := home_lt (Nat.zero_lt_of_lt hp) (row' i).hash
  have hfj : (row j).hash ≠ 0 := hhash ▸ hfull
  have hei : e ≠ i := fun heq => hfull (heq ▸ hempty)
  have hpj : p ≠ j := fun heq => hfj (heq ▸ hvacant)
  -- Neither probe passes an empty slot: the home slot lies behind `e`, and the entry before `p`.
  obtain ⟨hstart, hle⟩ := steps_pos_of_not_passed he hhome hei
    fun hlt => h'.reached i hi hfull e he hlt hempty
  have hbetween := steps_lt_of_not_passed he hhome hj hp hpj hstart
    (Nat.le_trans hle (Nat.le_of_lt_succ hhigh)) fun hlt => h.reached j hj hfj p hp (hhash ▸ hlt) hvacant
  exact mem_stretch.mpr ⟨hj, hbetween⟩

/-- **A row occupies every slot** that a row with no other keys occupies. -/
theorem occupied_of_covers (hsymm : ∀ a b, keying.same a b = keying.same b a)
    (htrans : ∀ a b d, keying.same a b = true → keying.same b d = true → keying.same a d = true)
    (h : Probing keying c row) (h' : Probing keying c row') (hdistinct : Distinct keying c row')
    (hcovers : Covers keying c row row') (hspace : ∃ z < c, (row' z).hash = 0) {p : Nat} (hp : p < c)
    (hfull : (row' p).hash ≠ 0) : (row p).hash ≠ 0 := by
  intro hvacant
  obtain ⟨e, he, hempty, hpos, hrun⟩ := exists_run hp hfull hspace
  -- `slot i` is where the key of the entry at `i` lies in the first row.
  have hslot : ∀ i, ∃ j, i ∈ stretch c e (steps c e p + 1) →
      j < c ∧ Matches keying (row' i).hash (row' i).key (row j) := by
    intro i
    by_cases hi : i ∈ stretch c e (steps c e p + 1)
    · obtain ⟨j, hj, hmatch⟩ := hcovers i (mem_stretch.mp hi).1 (hrun i hi)
      exact ⟨j, fun _ => ⟨hj, hmatch⟩⟩
    · exact ⟨0, fun hmem => absurd hmem hi⟩
  choose slot hslot using hslot
  have hmaps : ∀ i ∈ stretch c e (steps c e p + 1), slot i ∈ stretch c e (steps c e p) :=
    fun i hi => h.mem_stretch_of_matches h' he hempty hp hvacant hi (hrun i hi) (hslot i hi).1
      (hslot i hi).2
  -- There is one slot too few, so that two keys would have to share one.
  obtain ⟨i, hi, i', hi', hne, hshared⟩ :=
    Finset.exists_ne_map_eq_of_card_lt_of_maps_to (card_stretch_lt hp hpos) hmaps
  obtain ⟨_, hhash, hsame⟩ := hslot i hi
  obtain ⟨_, hhash', hsame'⟩ := hslot i' hi'
  rw [hshared] at hhash hsame
  rw [hsymm] at hsame
  have hapart := hdistinct i (mem_stretch.mp hi).1 i' (mem_stretch.mp hi').1 hne (hrun i hi)
    (hrun i' hi') (hhash.symm.trans hhash')
  rw [htrans _ _ _ hsame hsame'] at hapart
  cases hapart

end Row

end AlignedSlots
