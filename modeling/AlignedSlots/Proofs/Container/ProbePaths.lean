import Mathlib
import AlignedSlots.Proofs.Container.TableLaws

/-!
# Finding and placing along one path

The path of a hash is the sequence of slots from its home slot on, around the end.  `ProbeTable.HeldAt` and
`ProbeTable.MissingAt` say of a slot on the path what stops a probe for a key there, and one of them holds
of exactly one slot.  They speak of the contents of slots only, and of no probe.

The main statement, `ProbeTable.find_foretells_place`, is about any slots of which one is empty: their
entries may lie where no probe finds them, or twice.  Finding a key and placing it stop at the same slot
even there.
-/

namespace AlignedSlots

namespace ProbeTable

open Cyclic Row

/-! ## Paths -/

/-- The slot that a probe sees after `n` others. -/
def pathSlot (capacity : Nat) (hash : UInt64) (n : Nat) : Nat :=
  ((hash.toNat &&& (capacity - 1)) + n) % capacity

section Paths

variable {c n m : Nat} {hash : UInt64}

theorem pathSlot_lt (hc : 0 < c) (hash : UInt64) (n : Nat) : pathSlot c hash n < c :=
  Nat.mod_lt _ hc

theorem pathSlot_eq (power : c.isPowerOfTwo) (hash : UInt64) (n : Nat) :
    pathSlot c hash n = (home c hash + n) % c := by
  simp only [pathSlot, home, and_mask power]

/-- The slot `n` along the path is `n` steps from the home slot. -/
theorem steps_pathSlot (power : c.isPowerOfTwo) (hn : n < c) :
    steps c (home c hash) (pathSlot c hash n) = n := by
  rw [pathSlot_eq power]
  exact steps_add_mod (home_lt (Nat.zero_lt_of_lt hn) hash) hn

/-- Every slot lies on the path. -/
theorem pathSlot_steps (power : c.isPowerOfTwo) {i : Nat} (hi : i < c) :
    pathSlot c hash (steps c (home c hash) i) = i := by
  rw [pathSlot_eq power]
  exact add_steps_mod hi (home_lt (Nat.zero_lt_of_lt hi) hash)

theorem exists_pathSlot (power : c.isPowerOfTwo) (hash : UInt64) {i : Nat} (hi : i < c) :
    ∃ n < c, pathSlot c hash n = i :=
  ⟨_, steps_lt hi (home_lt (Nat.zero_lt_of_lt hi) hash), pathSlot_steps power hi⟩

theorem pathSlot_inj (power : c.isPowerOfTwo) (hn : n < c) (hm : m < c) :
    pathSlot c hash n = pathSlot c hash m ↔ n = m := by
  constructor
  · intro heq
    calc n = steps c (home c hash) (pathSlot c hash n) := (steps_pathSlot power hn).symm
      _ = steps c (home c hash) (pathSlot c hash m) := by rw [heq]
      _ = m := steps_pathSlot power hm
  · intro heq
    rw [heq]

end Paths

variable {κ ν ε : Type} [Element κ] [Element ν] {t : ProbeTable κ ν} {hash : UInt64} {key : κ}
  {n m : Nat} {slots : Slots}

/-! ## What stops a probe -/

/-- The first `n` slots of the path hold entries, and none of them holds the key. -/
def PathPassed (t : ProbeTable κ ν) (hash : UInt64) (key : κ) (n : Nat) : Prop :=
  ∀ j < n, (t.row (pathSlot t.capacity hash j)).hash ≠ 0 ∧
    ¬ Matches t.keying hash key (t.row (pathSlot t.capacity hash j))

/-- The first slot of the path that is empty or holds the key is slot `n`, and it holds the key. -/
structure HeldAt (t : ProbeTable κ ν) (hash : UInt64) (key : κ) (n : Nat) : Prop where
  lt : n < t.capacity
  full : (t.row (pathSlot t.capacity hash n)).hash ≠ 0
  found : Matches t.keying hash key (t.row (pathSlot t.capacity hash n))
  passed : t.PathPassed hash key n

/-- The first slot of the path that is empty or holds the key is slot `n`, and it is empty. -/
structure MissingAt (t : ProbeTable κ ν) (hash : UInt64) (key : κ) (n : Nat) : Prop where
  lt : n < t.capacity
  empty : (t.row (pathSlot t.capacity hash n)).hash = 0
  passed : t.PathPassed hash key n

/-- A probe does not pass a slot that stops it. -/
theorem PathPassed.le_of_stop (hpassed : t.PathPassed hash key n)
    (hstop : (t.row (pathSlot t.capacity hash m)).hash = 0 ∨
      Matches t.keying hash key (t.row (pathSlot t.capacity hash m))) : n ≤ m := by
  by_contra hlt
  obtain ⟨hfull, hother⟩ := hpassed m (Nat.lt_of_not_le hlt)
  exact hstop.elim hfull hother

/-- A probe has passed what lies before it on the path. -/
theorem passed_iff (power : t.capacity.isPowerOfTwo) (hn : n < t.capacity) :
    Passed t.keying t.capacity t.row hash key (pathSlot t.capacity hash n) ↔
      t.PathPassed hash key n := by
  unfold Passed PathPassed
  rw [steps_pathSlot power hn]
  constructor
  · intro hpassed j hj
    have hlt : j < t.capacity := Nat.lt_trans hj hn
    refine hpassed _ (pathSlot_lt (Nat.zero_lt_of_lt hn) hash j) ?_
    rw [steps_pathSlot power hlt]
    exact hj
  · intro hpassed s hs hlt
    have hslot := hpassed _ hlt
    rw [pathSlot_steps power hs] at hslot
    exact hslot

theorem lands_occupied_iff (power : t.capacity.isPowerOfTwo) (hn : n < t.capacity) :
    Lands t.keying t.capacity t.row hash key (.occupied (pathSlot t.capacity hash n)) ↔
      t.HeldAt hash key n := by
  constructor
  · rintro ⟨_, hfull, hmatch, hpassed⟩
    exact ⟨hn, hfull, hmatch, (passed_iff power hn).mp hpassed⟩
  · intro h
    exact ⟨pathSlot_lt (Nat.zero_lt_of_lt hn) hash n, h.full, h.found,
      (passed_iff power hn).mpr h.passed⟩

theorem lands_vacant_iff (power : t.capacity.isPowerOfTwo) (hn : n < t.capacity) :
    Lands t.keying t.capacity t.row hash key (.vacant (pathSlot t.capacity hash n)) ↔
      t.MissingAt hash key n := by
  constructor
  · rintro ⟨_, hempty, hpassed⟩
    exact ⟨hn, hempty, (passed_iff power hn).mp hpassed⟩
  · intro h
    exact ⟨pathSlot_lt (Nat.zero_lt_of_lt hn) hash n, h.empty, (passed_iff power hn).mpr h.passed⟩

/-- With an empty slot on the path, a probe comes to the key or to the end of the run. -/
theorem heldAt_or_missingAt (h : Fitted κ ν t.slots) (hspace : ∃ z < t.capacity, (t.row z).hash = 0)
    (hash : UInt64) (key : κ) : (∃ n, t.HeldAt hash key n) ∨ ∃ n, t.MissingAt hash key n := by
  obtain ⟨landing, _, hlands⟩ := probe_lands h hspace t.keying hash key
  cases landing with
  | occupied q =>
    obtain ⟨n, hn, rfl⟩ := exists_pathSlot h.power hash hlands.1
    exact .inl ⟨n, (lands_occupied_iff h.power hn).mp hlands⟩
  | vacant q =>
    obtain ⟨n, hn, rfl⟩ := exists_pathSlot h.power hash hlands.1
    exact .inr ⟨n, (lands_vacant_iff h.power hn).mp hlands⟩

/-! ## Probes -/

/-- A probe ends where it can land. -/
theorem probe_eq_of_lands (h : Fitted κ ν t.slots) {landing : Landing}
    (hlands : Lands t.keying t.capacity t.row hash key landing) :
    probe t.slots t.keying hash key = .ok landing := by
  have hstop : ∃ z < t.capacity, (t.row z).hash = 0 ∨ Matches t.keying hash key (t.row z) := by
    cases landing with
    | occupied q => exact ⟨q, hlands.1, .inr hlands.2.2.1⟩
    | vacant q => exact ⟨q, hlands.1, .inl hlands.2.1⟩
  obtain ⟨landing', hprobe, hlands'⟩ := probe_lands_of_stop h hstop
  cases hlands'.unique hlands
  exact hprobe

theorem HeldAt.probe_eq (hheld : t.HeldAt hash key n) (h : Fitted κ ν t.slots) :
    probe t.slots t.keying hash key = .ok (.occupied (pathSlot t.capacity hash n)) :=
  probe_eq_of_lands h ((lands_occupied_iff h.power hheld.lt).mpr hheld)

theorem MissingAt.probe_eq (hmissing : t.MissingAt hash key n) (h : Fitted κ ν t.slots) :
    probe t.slots t.keying hash key = .ok (.vacant (pathSlot t.capacity hash n)) :=
  probe_eq_of_lands h ((lands_vacant_iff h.power hmissing.lt).mpr hmissing)

theorem HeldAt.find_eq (hheld : t.HeldAt hash key n) (h : Fitted κ ν t.slots) :
    t.find hash key = .ok (some (pathSlot t.capacity hash n)) := by
  unfold find
  rw [hheld.probe_eq h]
  rfl

theorem MissingAt.find_eq (hmissing : t.MissingAt hash key n) (h : Fitted κ ν t.slots) :
    t.find hash key = .ok none := by
  unfold find
  rw [hmissing.probe_eq h]
  rfl

/-! ## Placing -/

/-- The other slots of the path are as they were. -/
theorem PathPassed.update (hpassed : t.PathPassed hash key n) (power : t.capacity.isPowerOfTwo)
    (hn : n < t.capacity) {e : Entry κ ν}
    (hslots : Rewritten t.slots slots (Function.update t.row (pathSlot t.capacity hash n) e)) :
    ({ t with slots } : ProbeTable κ ν).PathPassed hash key n := by
  have hcapacity : ({ t with slots } : ProbeTable κ ν).capacity = t.capacity := hslots.capacity_eq
  have hrow : ({ t with slots } : ProbeTable κ ν).row =
      Function.update t.row (pathSlot t.capacity hash n) e := hslots.item_eq
  intro j hj
  have hne : pathSlot t.capacity hash j ≠ pathSlot t.capacity hash n := by
    intro heq
    exact Nat.ne_of_lt hj ((pathSlot_inj power (Nat.lt_trans hj hn) hn).mp heq)
  rw [hcapacity, hrow, Function.update_of_ne hne]
  exact hpassed j hj

/-- A key that was written to the slot where its probe had stopped is found there. -/
theorem PathPassed.find_eq_of_rewritten (hpassed : t.PathPassed hash key n)
    (power : t.capacity.isPowerOfTwo) (hn : n < t.capacity) {e : Entry κ ν}
    (hslots : Rewritten t.slots slots (Function.update t.row (pathSlot t.capacity hash n) e))
    (hfull : e.hash ≠ 0) (hfound : Matches t.keying hash key e) :
    ({ t with slots } : ProbeTable κ ν).find hash key =
      .ok (some (pathSlot t.capacity hash n)) := by
  have hcapacity : ({ t with slots } : ProbeTable κ ν).capacity = t.capacity := hslots.capacity_eq
  have hrow : ({ t with slots } : ProbeTable κ ν).row (pathSlot t.capacity hash n) = e := by
    rw [show ({ t with slots } : ProbeTable κ ν).row = _ from hslots.item_eq, Function.update_self]
  have hheld : ({ t with slots } : ProbeTable κ ν).HeldAt hash key n := by
    refine ⟨hcapacity ▸ hn, ?_, ?_, hpassed.update power hn hslots⟩
    · rw [hcapacity, hrow]
      exact hfull
    · rw [hcapacity, hrow]
      exact hfound
  have hfind := hheld.find_eq hslots.fitted
  rw [hcapacity] at hfind
  exact hfind

/-- The key is in a slot of the path: placing it exchanges the value there and answers the one before. -/
structure Overwrites (ε : Type) (t : ProbeTable κ ν) (hash : UInt64) (key : κ) (value : ν) (n : Nat) :
    Prop where
  held : t.HeldAt hash key n
  find_eq : t.find hash key = .ok (some (pathSlot t.capacity hash n))
  place_eq : ∃ slots, place (ε := ε) t.keying ⟨hash, key, value⟩ t.slots =
      .ok (some (t.row (pathSlot t.capacity hash n)).value) slots ∧
    Rewritten t.slots slots (Function.update t.row (pathSlot t.capacity hash n)
      { t.row (pathSlot t.capacity hash n) with value }) ∧
    ({ t with slots } : ProbeTable κ ν).find hash key = .ok (some (pathSlot t.capacity hash n))

/-- The key is nowhere on the path before the first empty slot: placing it fills that slot. -/
structure Fills (ε : Type) (t : ProbeTable κ ν) (hash : UInt64) (key : κ) (value : ν) (n : Nat) :
    Prop where
  missing : t.MissingAt hash key n
  find_eq : t.find hash key = .ok none
  place_eq : ∃ slots, place (ε := ε) t.keying ⟨hash, key, value⟩ t.slots = .ok none slots ∧
    Rewritten t.slots slots
      (Function.update t.row (pathSlot t.capacity hash n) ⟨hash, key, value⟩) ∧
    (t.keying.same key key = true → ({ t with slots } : ProbeTable κ ν).find hash key =
      .ok (some (pathSlot t.capacity hash n)))

variable [LawfulElement κ] [LawfulElement ν]

theorem HeldAt.overwrites (hheld : t.HeldAt hash key n) (h : Fitted κ ν t.slots)
    (hspace : ∃ z < t.capacity, (t.row z).hash = 0) (value : ν) :
    t.Overwrites ε hash key value n := by
  refine ⟨hheld, hheld.find_eq h, ?_⟩
  obtain ⟨answer, slots, hplace, row, hplaced, hslots⟩ :=
    (place_ends (ε := ε) h hspace t.keying ⟨hash, key, value⟩).exists_ok
  obtain ⟨rfl, rfl⟩ := hplaced.of_occupied ((lands_occupied_iff h.power hheld.lt).mpr hheld)
  refine ⟨slots, hplace, hslots, ?_⟩
  exact hheld.passed.find_eq_of_rewritten h.power hheld.lt hslots hheld.full hheld.found

theorem MissingAt.fills (hmissing : t.MissingAt hash key n) (h : Fitted κ ν t.slots)
    (hspace : ∃ z < t.capacity, (t.row z).hash = 0) (hhash : hash ≠ 0) (value : ν) :
    t.Fills ε hash key value n := by
  refine ⟨hmissing, hmissing.find_eq h, ?_⟩
  obtain ⟨answer, slots, hplace, row, hplaced, hslots⟩ :=
    (place_ends (ε := ε) h hspace t.keying ⟨hash, key, value⟩).exists_ok
  obtain ⟨rfl, rfl⟩ := hplaced.of_vacant ((lands_vacant_iff h.power hmissing.lt).mpr hmissing)
  refine ⟨slots, hplace, hslots, fun hsame => ?_⟩
  exact hmissing.passed.find_eq_of_rewritten h.power hmissing.lt hslots hhash ⟨rfl, hsame⟩

/-- **Finding a key and placing it stop at one slot**, in any slots of which one is empty and whatever
the sameness of keys is.  It is the first one on the path of the hash that is empty or holds the key. -/
theorem find_foretells_place (h : Fitted κ ν t.slots) (hspace : ∃ z < t.capacity, (t.row z).hash = 0)
    (hhash : hash ≠ 0) (key : κ) (value : ν) :
    (∃ n, t.Overwrites ε hash key value n) ∨ ∃ n, t.Fills ε hash key value n := by
  rcases heldAt_or_missingAt h hspace hash key with ⟨n, hheld⟩ | ⟨n, hmissing⟩
  · exact .inl ⟨n, hheld.overwrites h hspace value⟩
  · exact .inr ⟨n, hmissing.fills h hspace hhash value⟩

/-- An entry of the hash 3 that lies in slot 5, where no probe comes to it.  Its key is placed a second
time, in slot 3, and found there. -/
theorem find_foretells_place_astray :
    ∃ t : ProbeTable Bool Bool, t.row 5 = ⟨3, true, true⟩ ∧ t.find 3 true = .ok none ∧
      ∃ slots, place (ε := Empty) t.keying ⟨3, true, false⟩ t.slots = .ok none slots ∧
        Rewritten t.slots slots (Function.update t.row 3 ⟨3, true, false⟩) ∧
        ({ t with slots } : ProbeTable Bool Bool).find 3 true = .ok (some 3) := by
  have hvalid : ValidAlign (blockAlign Bool Bool) := by decide
  obtain ⟨t₀, _, hcreate⟩ := exists_create_eq_ok (ν := Bool) ⟨fun _ : Bool => 3, (· == ·)⟩ Host.ordinary
    (64 + 2 ^ 37) hvalid Host.ordinary_sound.inBounds (by decide) (by decide)
  obtain ⟨hsound, hkeying, hentries, _, hcapacity, _⟩ :=
    (create_ends (ν := Bool) _ Host.ordinary hvalid Host.ordinary_sound.inBounds).of_run_ok hcreate
  have hcapacity : t₀.slots.capacity = 16 := hcapacity
  have hfive : 5 < t₀.slots.capacity := by omega
  obtain ⟨_, slots, _, hslots⟩ :=
    (putEntry_ends (ε := Empty) hsound.fitted hfive ⟨3, true, true⟩).exists_ok
  let t : ProbeTable Bool Bool := { t₀ with slots }
  have hrow : t.row = Function.update t₀.row 5 ⟨3, true, true⟩ := hslots.item_eq
  have htcapacity : t.capacity = 16 := hslots.capacity_eq.trans hcapacity
  have hslot : pathSlot t.capacity 3 0 = 3 := by
    rw [htcapacity]
    decide
  have hvacant : (t.row 3).hash = 0 := by
    rw [hrow, Function.update_of_ne (by decide)]
    exact hash_eq_zero_of_contents hentries (show 3 < t₀.slots.capacity by omega)
  have hspace : ∃ z < t.capacity, (t.row z).hash = 0 := ⟨3, by omega, hvacant⟩
  -- The path of the hash starts with slot 3, which is empty.
  have hstop : (t.row (pathSlot t.capacity 3 0)).hash = 0 := by
    rw [hslot]
    exact hvacant
  rcases find_foretells_place (ε := Empty) hslots.fitted hspace (by decide : (3 : UInt64) ≠ 0) true false
    with ⟨n, hover⟩ | ⟨n, hfills⟩
  · obtain rfl := Nat.le_zero.mp (hover.held.passed.le_of_stop (.inl hstop))
    exact absurd hstop hover.held.full
  · obtain rfl := Nat.le_zero.mp (hfills.missing.passed.le_of_stop (.inl hstop))
    obtain ⟨slots', hplace, hrewritten, hfind⟩ := hfills.place_eq
    rw [hslot] at hrewritten hfind
    refine ⟨t, ?_, hfills.find_eq, slots', hplace, hrewritten, hfind ?_⟩
    · rw [hrow, Function.update_self]
    · rw [show t.keying = _ from hkeying]
      rfl

end ProbeTable

end AlignedSlots
