import Mathlib
import AlignedSlots.Proofs.Probe.Row

/-!
# Runs of occupied slots

The slots that a probe sees one after the other are an arc of the ring, `Cyclic.arc`.  In a row with an
empty slot, the arc from any slot on comes to a first empty one, and everything that a probe, or the
settling of a run, can do happens before it.  `Row.le_length_contents` bounds the length of such an arc:
a row has an entry for every slot in it.
-/

namespace AlignedSlots

namespace Cyclic

variable {c e i n : Nat}

/-- The `n` slots from slot `e` on, in the order of a probe. -/
def arc (c e n : Nat) : List Nat := (List.range n).map fun j => (e + j) % c

theorem length_arc (c e n : Nat) : (arc c e n).length = n := by
  unfold arc
  rw [List.length_map, List.length_range]

/-- An arc that ends in front of slot `i` goes on with slot `i`. -/
theorem arc_succ (hi : i < c) (he : e < c) (hn : steps c e i = n) :
    arc c e (n + 1) = arc c e n ++ [i] := by
  unfold arc
  rw [List.range_succ, List.map_append, List.map_singleton, ← hn, add_steps_mod hi he]

theorem arc_one (he : e < c) : arc c e 1 = [e] := arc_succ he he (steps_self c e)

theorem mem_arc (he : e < c) (hn : n ≤ c) : i ∈ arc c e n ↔ i < c ∧ steps c e i < n := by
  unfold arc
  rw [List.mem_map]
  constructor
  · rintro ⟨j, hj, rfl⟩
    have hj := List.mem_range.mp hj
    refine ⟨Nat.mod_lt _ (by omega), ?_⟩
    rw [steps_add_mod he (by omega)]
    exact hj
  · rintro ⟨hi, hlt⟩
    exact ⟨steps c e i, List.mem_range.mpr hlt, add_steps_mod hi he⟩

/-- An arc of at most one round visits no slot twice. -/
theorem nodup_arc (he : e < c) (hn : n ≤ c) : (arc c e n).Nodup := by
  unfold arc
  refine List.Nodup.map_on ?_ List.nodup_range
  intro j hj k hk heq
  have hj := List.mem_range.mp hj
  have hk := List.mem_range.mp hk
  rw [← steps_add_mod (c := c) (j := j) he (by omega), heq, steps_add_mod he (by omega)]

/-- Seen from the next slot, every other slot is one step nearer. -/
theorem steps_from_next (hi : i < c) (he : e < c) (hn : steps c e i = n + 1) :
    steps c (next c e) i = n := by
  unfold steps next at *
  split at hn <;> split <;> split <;> omega

/-- An arc from the next slot lies in the one that starts a slot before it and is as much longer. -/
theorem steps_lt_succ_of_next (hi : i < c) (he : e < c) (hlt : steps c (next c e) i < n) :
    steps c e i < n + 1 := by
  unfold steps next at *
  split at hlt <;> split at hlt <;> split <;> omega

end Cyclic

namespace Row

open Cyclic

variable {κ ν : Type} {c h n : Nat} {row : Row κ ν}

/-- The first empty slot from slot `h` on. -/
theorem exists_first_empty (h : Nat) (hspace : ∃ z < c, (row z).hash = 0) :
    ∃ z < c, (row z).hash = 0 ∧ ∀ s < c, steps c h s < steps c h z → (row s).hash ≠ 0 := by
  obtain ⟨z, hz, hzero⟩ := hspace
  have hsome : ∃ n, ∃ z < c, (row z).hash = 0 ∧ steps c h z = n := ⟨_, z, hz, hzero, rfl⟩
  obtain ⟨z, hz, hempty, hleast⟩ := Nat.find_spec hsome
  refine ⟨z, hz, hempty, fun s hs hlt hzero => ?_⟩
  exact Nat.find_min hsome (hleast ▸ hlt) ⟨s, hs, hzero, rfl⟩

/-- An arc of occupied slots is no longer than the row has entries. -/
theorem le_length_contents (hh : h < c) (hn : n ≤ c)
    (hfull : ∀ s < c, steps c h s < n → (row s).hash ≠ 0) : n ≤ (contents c row).length := by
  have hsubset : arc c h n ⊆ List.range c := fun s hs =>
    List.mem_range.mpr ((mem_arc hh hn).mp hs).1
  have hall : ∀ s ∈ arc c h n, decide ((row s).hash ≠ 0) = true := by
    intro s hs
    obtain ⟨hs, hlt⟩ := (mem_arc hh hn).mp hs
    exact decide_eq_true (hfull s hs hlt)
  have hcount := (List.subperm_of_subset (nodup_arc hh hn) hsubset).countP_le
    fun s => decide ((row s).hash ≠ 0)
  rw [List.countP_eq_length.mpr hall, length_arc, ← length_contents] at hcount
  exact hcount

end Row

end AlignedSlots
