import Mathlib
import AlignedSlots.Proofs.Container.TableSlots

/-!
# What the operations of a table keep

`ProbeTable.Sound` holds of every table, whatever the sameness of its keys is: the slots can be probed,
and at most half of them hold an entry.  `ProbeTable.Tidy` adds what a symmetric sameness gives: no key
is stored twice, and the length is the number of entries.

What an operation makes of a table is said by `ProbeTable.Doubled`, `ProbeTable.Stored` and
`ProbeTable.Erased`, and each of them keeps both invariants.
-/

namespace AlignedSlots

namespace ProbeTable

open Cyclic Row

variable {κ ν : Type} [Element κ] [Element ν]

/-- The entries of a table, by slot. -/
def row (t : ProbeTable κ ν) : Row κ ν := t.slots.item

/-- The entries of a table, in the order of the slots. -/
def entries (t : ProbeTable κ ν) : List (Entry κ ν) := contents t.capacity t.row

/-- What every operation keeps. -/
structure Sound (t : ProbeTable κ ν) : Prop where
  fitted : Fitted κ ν t.slots
  capacity_eq : ∃ k, t.capacity = firstCapacity * 2 ^ k
  probing : Probing t.keying t.capacity t.row
  entries_le : t.entries.length ≤ t.length
  length_le : t.length ≤ t.capacity / 2

/-- What every operation keeps where sameness is symmetric. -/
structure Tidy (t : ProbeTable κ ν) : Prop extends t.Sound where
  distinct : Distinct t.keying t.capacity t.row
  length_eq : t.entries.length = t.length

variable {t t' : ProbeTable κ ν}

theorem Sound.capacity_ge (h : t.Sound) : firstCapacity ≤ t.capacity := by
  obtain ⟨k, hk⟩ := h.capacity_eq
  rw [hk]
  exact Nat.le_mul_of_pos_right _ (Nat.two_pow_pos k)

theorem Sound.entries_lt (h : t.Sound) : t.entries.length < t.capacity := by
  have hfirst : firstCapacity = 16 := rfl
  have hcapacity := h.capacity_ge
  have hlength := h.length_le
  have hentries := h.entries_le
  omega

theorem Sound.exists_empty (h : t.Sound) : ∃ z < t.capacity, (t.row z).hash = 0 :=
  Row.exists_empty h.entries_lt

/-! ## What the operations make of a table -/

/-- `t'` has the entries of `t` in twice as many slots. -/
structure Doubled (t t' : ProbeTable κ ν) : Prop where
  fitted : Fitted κ ν t'.slots
  capacity_eq : t'.capacity = t.capacity * 2
  length_eq : t'.length = t.length
  keying_eq : t'.keying = t.keying
  rehashed : ∃ blank : Row κ ν, (∀ i < t'.capacity, (blank i).hash = 0) ∧
    Rehashes t.keying t'.capacity t.row (List.range t.capacity) blank t'.row

/-- `t'` has one more entry than `t`, or another value in the entry of the same key. -/
structure Stored (t : ProbeTable κ ν) (entry : Entry κ ν) (answer : Option ν)
    (t' : ProbeTable κ ν) : Prop where
  fitted : Fitted κ ν t'.slots
  capacity_eq : t'.capacity = t.capacity
  base_eq : t'.slots.base = t.slots.base
  keying_eq : t'.keying = t.keying
  length_eq : t'.length = t.length + if answer.isNone then 1 else 0
  placed : Placed t.keying t.capacity t.row entry answer t'.row

/-- `t'` lacks the entry in slot `q` of `t`, and the entries behind it have settled. -/
structure Erased (t : ProbeTable κ ν) (q : Nat) (t' : ProbeTable κ ν) : Prop where
  fitted : Fitted κ ν t'.slots
  capacity_eq : t'.capacity = t.capacity
  base_eq : t'.slots.base = t.slots.base
  keying_eq : t'.keying = t.keying
  length_eq : t'.length = t.length - 1
  settled : Settles t.keying t.capacity (next t.capacity q) (cleared t.row q) t'.row

theorem Doubled.sound (hdoubled : Doubled t t') (h : t.Sound) : t'.Sound := by
  obtain ⟨blank, hblank, hrehashes⟩ := hdoubled.rehashed
  refine ⟨hdoubled.fitted, ?_, ?_, ?_, ?_⟩
  · obtain ⟨k, hk⟩ := h.capacity_eq
    refine ⟨k + 1, ?_⟩
    rw [hdoubled.capacity_eq, hk, Nat.pow_succ, Nat.mul_assoc]
  · rw [hdoubled.keying_eq]
    refine hrehashes.probing (fun i hi hfull => ?_) (probing_of_empty hblank)
    exact h.probing.hashed i (List.mem_range.mp hi) hfull
  · have hle := hrehashes.length_contents_le
    rw [contents_of_empty hblank, List.length_nil, Nat.zero_add] at hle
    rw [hdoubled.length_eq]
    exact Nat.le_trans hle h.entries_le
  · have hlength := h.length_le
    rw [hdoubled.length_eq, hdoubled.capacity_eq]
    omega

/-- There is room for another entry after the slots were doubled. -/
theorem Doubled.length_lt (hdoubled : Doubled t t') (h : t.Sound) : t'.length < t'.capacity / 2 := by
  have hfirst : firstCapacity = 16 := rfl
  have hcapacity := h.capacity_ge
  have hlength := h.length_le
  rw [hdoubled.length_eq, hdoubled.capacity_eq]
  omega

theorem Doubled.entries_perm (hdoubled : Doubled t t') (h : t.Tidy)
    (hsymm : ∀ a b, t.keying.same a b = t.keying.same b a) :
    Distinct t'.keying t'.capacity t'.row ∧ t'.entries.Perm t.entries := by
  obtain ⟨blank, hblank, hrehashes⟩ := hdoubled.rehashed
  have hcontents := hrehashes.contents hsymm h.distinct List.nodup_range
    (fun i hi => List.mem_range.mp hi) (fun i hi hfull => absurd (hblank i hi) hfull)
    (distinct_of_empty hblank)
  rw [contents_of_empty hblank, List.nil_append, ← hdoubled.keying_eq] at hcontents
  exact hcontents

theorem Doubled.tidy (hdoubled : Doubled t t') (h : t.Tidy)
    (hsymm : ∀ a b, t.keying.same a b = t.keying.same b a) : t'.Tidy := by
  obtain ⟨hdistinct, hperm⟩ := hdoubled.entries_perm h hsymm
  refine ⟨hdoubled.sound h.toSound, hdistinct, ?_⟩
  rw [hperm.length_eq, h.length_eq, hdoubled.length_eq]

section Stored

variable {entry : Entry κ ν} {answer : Option ν}

theorem Stored.sound (hstored : Stored t entry answer t') (h : t.Sound)
    (hroom : t.length < t.capacity / 2) (hfull : entry.hash ≠ 0)
    (hentry : entry.hash = t.keying.hash entry.key) : t'.Sound := by
  refine ⟨hstored.fitted, ?_, ?_, ?_, ?_⟩
  · rw [hstored.capacity_eq]
    exact h.capacity_eq
  · rw [hstored.capacity_eq, hstored.keying_eq]
    exact hstored.placed.probing h.probing hentry
  · have hlength := hstored.placed.length_contents hfull
    have hentries : (contents t.capacity t.row).length ≤ t.length := h.entries_le
    unfold entries
    rw [hstored.capacity_eq, hlength, hstored.length_eq]
    exact Nat.add_le_add_right hentries _
  · rw [hstored.length_eq, hstored.capacity_eq]
    split <;> omega

theorem Stored.tidy (hstored : Stored t entry answer t') (h : t.Tidy)
    (hsymm : ∀ a b, t.keying.same a b = t.keying.same b a)
    (hroom : t.length < t.capacity / 2) (hfull : entry.hash ≠ 0)
    (hentry : entry.hash = t.keying.hash entry.key) : t'.Tidy := by
  refine ⟨hstored.sound h.toSound hroom hfull hentry, ?_, ?_⟩
  · rw [hstored.capacity_eq, hstored.keying_eq]
    refine hstored.placed.distinct hsymm h.distinct fun q hlands i hi hfi => ?_
    exact h.probing.not_matches_of_vacant hlands hi hfi
  · have hlength := hstored.placed.length_contents hfull
    have hentries : (contents t.capacity t.row).length = t.length := h.length_eq
    unfold entries
    rw [hstored.capacity_eq, hlength, hstored.length_eq, hentries]

end Stored

section Erased

variable {q : Nat}

theorem Sound.length_pos (h : t.Sound) (hq : q < t.capacity) (hfull : (t.row q).hash ≠ 0) :
    0 < t.length := by
  have hentries : (contents t.capacity t.row).length ≤ t.length := h.entries_le
  rw [length_contents_cleared hq hfull] at hentries
  omega

theorem Erased.sound (herased : Erased t q t') (h : t.Sound) (hq : q < t.capacity)
    (hfull : (t.row q).hash ≠ 0) : t'.Sound := by
  have hpos : 0 < t.capacity := Nat.zero_lt_of_lt hq
  refine ⟨herased.fitted, ?_, ?_, ?_, ?_⟩
  · rw [herased.capacity_eq]
    exact h.capacity_eq
  · obtain ⟨z, hz, hempty⟩ := h.exists_empty
    have hzq : z ≠ q := by
      rintro rfl
      exact hfull hempty
    have hsteps : steps t.capacity q z ≠ steps t.capacity q q :=
      fun heq => hzq (eq_of_steps_eq hz hq hq heq)
    have hround := steps_lt hz hq
    have hself := steps_self t.capacity q
    have hnext : steps t.capacity q (next t.capacity q) = 0 + 1 := by
      rw [steps_next hq hq (by omega), hself]
    have hcleared : (cleared t.row q z).hash = 0 := by
      rw [cleared_of_ne hzq]
      exact hempty
    rw [herased.capacity_eq, herased.keying_eq]
    exact herased.settled.probing (h.probing.sweeping hq) hq (next_lt hpos) hnext hz hcleared
      (by omega)
  · have hle := herased.settled.length_contents_le (next_lt hpos)
    have hcleared := length_contents_cleared hq hfull
    have hentries : (contents t.capacity t.row).length ≤ t.length := h.entries_le
    unfold entries
    rw [herased.capacity_eq, herased.length_eq]
    omega
  · have hlength := h.length_le
    rw [herased.length_eq, herased.capacity_eq]
    omega

theorem Erased.entries_perm (herased : Erased t q t') (h : t.Tidy)
    (hsymm : ∀ a b, t.keying.same a b = t.keying.same b a) (hq : q < t.capacity)
    (hfull : (t.row q).hash ≠ 0) :
    Distinct t'.keying t'.capacity t'.row ∧ t.entries.Perm (t.row q :: t'.entries) := by
  obtain ⟨hdistinct, hperm⟩ :=
    herased.settled.contents (next_lt (Nat.zero_lt_of_lt hq)) hsymm (h.distinct.cleared q)
  have hcleared := contents_clear { t.row q with hash := 0 } hq hfull rfl
  unfold entries
  rw [herased.capacity_eq, herased.keying_eq]
  exact ⟨hdistinct, hcleared.trans (hperm.symm.cons _)⟩

theorem Erased.tidy (herased : Erased t q t') (h : t.Tidy)
    (hsymm : ∀ a b, t.keying.same a b = t.keying.same b a) (hq : q < t.capacity)
    (hfull : (t.row q).hash ≠ 0) : t'.Tidy := by
  obtain ⟨hdistinct, hperm⟩ := herased.entries_perm h hsymm hq hfull
  have hlength := hperm.length_eq
  rw [List.length_cons, h.length_eq] at hlength
  refine ⟨herased.sound h.toSound hq hfull, hdistinct, ?_⟩
  rw [herased.length_eq]
  omega

end Erased

end ProbeTable

end AlignedSlots
