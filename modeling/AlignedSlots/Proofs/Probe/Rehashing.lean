import Mathlib
import AlignedSlots.Proofs.Probe.Row

/-!
# Rehashing a row

A table that grows puts its entries into a longer row, in the order of the old slots, and each of them
is probed for like a new key.  `Row.Rehashes` is that as a relation between rows.  No entry may meet an
earlier one on the way: `Row.Rehashes.contents` says so from the distinctness of the old row and the
symmetry of sameness alone.
-/

namespace AlignedSlots

namespace Row

open Cyclic

variable {κ ν : Type} {c oldCapacity : Nat} {old row row' : Row κ ν} {keying : Keying κ}
  {indices : List Nat}

/-- Puts the entries of the given slots of `old` into the row. -/
inductive Rehashes (keying : Keying κ) (c : Nat) (old : Row κ ν) :
    List Nat → Row κ ν → Row κ ν → Prop
  | nil {row : Row κ ν} : Rehashes keying c old [] row row
  | skip {i : Nat} {rest : List Nat} {row row' : Row κ ν} : (old i).hash = 0 →
      Rehashes keying c old rest row row' → Rehashes keying c old (i :: rest) row row'
  | put {i : Nat} {rest : List Nat} {row mid row' : Row κ ν} {answer : Option ν} :
      (old i).hash ≠ 0 → Placed keying c row (old i) answer mid →
      Rehashes keying c old rest mid row' → Rehashes keying c old (i :: rest) row row'

/-- The new row can be probed, whatever the sameness of keys is. -/
theorem Rehashes.probing (hrehashes : Rehashes keying c old indices row row')
    (hold : ∀ i ∈ indices, (old i).hash ≠ 0 → (old i).hash = keying.hash (old i).key)
    (h : Probing keying c row) : Probing keying c row' := by
  induction hrehashes with
  | nil => exact h
  | skip _ _ ih => exact ih (fun j hj => hold j (List.mem_cons_of_mem _ hj)) h
  | put hfull hplaced _ ih =>
    have hmid := hplaced.probing h (hold _ List.mem_cons_self hfull)
    exact ih (fun j hj => hold j (List.mem_cons_of_mem _ hj)) hmid

/-- Entries can be lost, but none is added, whatever the sameness of keys is. -/
theorem Rehashes.length_contents_le (hrehashes : Rehashes keying c old indices row row') :
    (contents c row').length ≤ (contents c row).length + (gather indices old).length := by
  induction hrehashes with
  | nil => exact Nat.le_add_right _ _
  | skip hempty _ ih =>
    rw [gather_cons_of_empty _ hempty]
    exact ih
  | put hfull hplaced _ ih =>
    have hmid := hplaced.length_contents hfull
    rw [gather_cons_of_full _ hfull, List.length_cons]
    split at hmid <;> omega

/-- An entry is placed on top of no entry before it. -/
theorem Distinct.not_matches_earlier (hold : Distinct keying oldCapacity old) {i j : Nat}
    (hi : i < oldCapacity) (hj : j < oldCapacity) (hne : j ≠ i) (hfi : (old i).hash ≠ 0)
    (hfj : (old j).hash ≠ 0) : ¬ Matches keying (old i).hash (old i).key (old j) := by
  rintro ⟨heq, hsame⟩
  rw [hold j hj i hi hne hfj hfi heq] at hsame
  exact Bool.false_ne_true hsame

/-- **Rehashing loses no entry** and doubles none: the new row holds what it held and the entries of
the given slots. -/
theorem Rehashes.contents (hrehashes : Rehashes keying c old indices row row')
    (hsymm : ∀ a b, keying.same a b = keying.same b a) (hold : Distinct keying oldCapacity old)
    (hnodup : indices.Nodup) (hin : ∀ i ∈ indices, i < oldCapacity)
    (hrow : ∀ i < c, (row i).hash ≠ 0 → ∃ j < oldCapacity, j ∉ indices ∧ row i = old j)
    (h : Distinct keying c row) :
    Distinct keying c row' ∧
      (contents c row').Perm (contents c row ++ gather indices old) := by
  -- Carried along is `hrow`: the row holds old entries only, and none from a slot that is to come.
  induction hrehashes with
  | nil =>
    rw [show gather [] old = [] from rfl, List.append_nil]
    exact ⟨h, List.Perm.refl _⟩
  | @skip i rest row row' hempty _ ih =>
    rw [gather_cons_of_empty rest hempty]
    refine ih hnodup.of_cons (fun j hj => hin j (List.mem_cons_of_mem _ hj)) ?_ h
    intro k hk hfk
    obtain ⟨j, hj, hnot, heq⟩ := hrow k hk hfk
    exact ⟨j, hj, fun hmem => hnot (List.mem_cons_of_mem _ hmem), heq⟩
  | @put i rest row mid row' answer hfull hplaced _ ih =>
    have hi := hin i List.mem_cons_self
    have hnew : ∀ k < c, (row k).hash ≠ 0 → ¬ Matches keying (old i).hash (old i).key (row k) := by
      intro k hk hfk
      obtain ⟨j, hj, hnot, heq⟩ := hrow k hk hfk
      have hji : j ≠ i := fun h => hnot (h ▸ List.mem_cons_self)
      rw [heq] at hfk ⊢
      exact hold.not_matches_earlier hi hj hji hfull hfk
    have hmid := hplaced.distinct hsymm h fun _ _ => hnew
    -- So the entry went into an empty slot, and the row holds old entries only.
    cases hplaced with
    | occupied q hlands => exact absurd hlands.2.2.1 (hnew q hlands.1 hlands.2.1)
    | vacant q hlands =>
      have hrowmid : ∀ k < c, (Function.update row q (old i) k).hash ≠ 0 →
          ∃ j < oldCapacity, j ∉ rest ∧ Function.update row q (old i) k = old j := by
        intro k hk hfk
        by_cases hkq : k = q
        · subst hkq
          rw [Function.update_self]
          exact ⟨i, hi, (List.nodup_cons.mp hnodup).1, rfl⟩
        · rw [Function.update_of_ne hkq] at hfk ⊢
          obtain ⟨j, hj, hnot, heq⟩ := hrow k hk hfk
          exact ⟨j, hj, fun hmem => hnot (List.mem_cons_of_mem _ hmem), heq⟩
      obtain ⟨hdistinct, hperm⟩ :=
        ih hnodup.of_cons (fun j hj => hin j (List.mem_cons_of_mem _ hj)) hrowmid hmid
      refine ⟨hdistinct, hperm.trans ?_⟩
      rw [gather_cons_of_full rest hfull]
      have hfill := contents_fill (old i) hlands.1 hlands.2.1 hfull
      exact (hfill.append_right _).trans List.perm_middle.symm

end Row

end AlignedSlots
