import Mathlib
import AlignedSlots.Proofs.Container.ProbePaths
import AlignedSlots.Proofs.Container.TableReach
import AlignedSlots.Proofs.Hash.LowBits
import AlignedSlots.Proofs.Probe.Runs

/-!
# Keys that cluster

A table takes the home slot of a key from the low bits of its hash, and under FNV-1a these see only the low
bits of the bytes.  Keys that differ in high bits alone, such as multiples of 256 in a small table, all have
one home slot, and go into one run.

`ProbeTable.SharesRun` says what that means for two keys, whether the table has them or not.  The computed
hash 0 is exchanged for another one, which need not have the same low bits; keys with that hash are left out.
-/

namespace AlignedSlots

namespace Keying

variable {κ : Type} [Digest κ] {k : Nat} {a b : κ}

/-- Keys whose digests agree in their low bits have hashes that do, if none is exchanged. -/
theorem fnvHash_modEq (hk : k ≤ 8) (hagree : Fnv.AgreeBelow k (Digest.digest a) (Digest.digest b))
    (ha : AlignedSlots.fnvHash a ≠ 0) (hb : AlignedSlots.fnvHash b ≠ 0) :
    (fnvHash a).toNat ≡ (fnvHash b).toNat [MOD 2 ^ k] := by
  unfold fnvHash nonzero
  rw [if_neg ha, if_neg hb]
  exact Fnv.Variant.seesLowBits (by decide) Fnv.bits64 k hk _ _ _ hagree

end Keying

namespace ProbeTable

open Cyclic Row

variable {κ ν : Type} [Element κ] [Element ν] {t : ProbeTable κ ν} {hash : UInt64} {key a b : κ}
  {n m : Nat}

/-! ## The end of a run -/

/-- Slot `m` of the path is its first empty one. -/
structure RunEnd (t : ProbeTable κ ν) (hash : UInt64) (m : Nat) : Prop where
  lt : m < t.capacity
  empty : (t.row (pathSlot t.capacity hash m)).hash = 0
  full : ∀ j < m, (t.row (pathSlot t.capacity hash j)).hash ≠ 0

/-- Every path comes to an empty slot, as long as there is one. -/
theorem exists_runEnd (power : t.capacity.isPowerOfTwo) (hspace : ∃ z < t.capacity, (t.row z).hash = 0)
    (hash : UInt64) : ∃ m, t.RunEnd hash m := by
  obtain ⟨z, hz, hempty, hfull⟩ := exists_first_empty (home t.capacity hash) hspace
  obtain ⟨m, hm, rfl⟩ := exists_pathSlot power hash hz
  refine ⟨m, hm, hempty, fun j hj => hfull _ (pathSlot_lt (Nat.zero_lt_of_lt hz) hash j) ?_⟩
  rw [steps_pathSlot power (Nat.lt_trans hj hm), steps_pathSlot power hm]
  exact hj

/-- A key is held before the end of its run. -/
theorem HeldAt.lt_runEnd (hheld : t.HeldAt hash key n) (hend : t.RunEnd hash m) : n < m := by
  refine Nat.lt_of_le_of_ne (hheld.passed.le_of_stop (.inl hend.empty)) ?_
  rintro rfl
  exact hheld.full hend.empty

/-- A key is missed at the end of its run. -/
theorem MissingAt.eq_runEnd (hmissing : t.MissingAt hash key n) (hend : t.RunEnd hash m) : n = m := by
  have hle := hmissing.passed.le_of_stop (.inl hend.empty)
  by_contra hne
  exact hend.full n (Nat.lt_of_le_of_ne hle hne) hmissing.empty

/-- The probe for a key ends in the run of a path: at one of its entries, or at the empty slot behind
them. -/
def ProbesRun (t : ProbeTable κ ν) (hash : UInt64) (m : Nat) (key : κ) : Prop :=
  (∃ n < m, probe t.slots t.keying (t.keying.hash key) key =
      .ok (.occupied (pathSlot t.capacity hash n))) ∨
    probe t.slots t.keying (t.keying.hash key) key = .ok (.vacant (pathSlot t.capacity hash m))

/-- The probes for two keys start at the same slot and end in the same run. -/
structure SharesRun (t : ProbeTable κ ν) (a b : κ) : Prop where
  home_eq : (t.keying.hash a).toNat &&& (t.capacity - 1) = (t.keying.hash b).toNat &&& (t.capacity - 1)
  run : ∃ m, t.RunEnd (t.keying.hash a) m ∧ t.ProbesRun (t.keying.hash a) m a ∧
    t.ProbesRun (t.keying.hash a) m b

/-- The path of a key is decided by its home slot. -/
theorem pathSlot_congr {c : Nat} {hash hash' : UInt64}
    (hhome : hash.toNat &&& (c - 1) = hash'.toNat &&& (c - 1)) (n : Nat) :
    pathSlot c hash n = pathSlot c hash' n := by
  unfold pathSlot
  rw [hhome]

/-- The probe for a key goes to the end of the run at most. -/
theorem Sound.probesRun (h : t.Sound) (hend : t.RunEnd (t.keying.hash key) m) :
    t.ProbesRun (t.keying.hash key) m key := by
  rcases heldAt_or_missingAt h.fitted h.exists_empty (t.keying.hash key) key with
    ⟨n, hheld⟩ | ⟨n, hmissing⟩
  · exact .inl ⟨n, hheld.lt_runEnd hend, hheld.probe_eq h.fitted⟩
  · obtain rfl := hmissing.eq_runEnd hend
    exact .inr (hmissing.probe_eq h.fitted)

/-- Keys with one home slot share a run. -/
theorem Sound.sharesRun (h : t.Sound) (hhome : (t.keying.hash a).toNat &&& (t.capacity - 1) =
    (t.keying.hash b).toNat &&& (t.capacity - 1)) : t.SharesRun a b := by
  obtain ⟨m, hend⟩ := exists_runEnd h.fitted.power h.exists_empty (t.keying.hash a)
  have hpath := pathSlot_congr hhome
  have hend' : t.RunEnd (t.keying.hash b) m := by
    refine ⟨hend.lt, ?_, fun j hj => ?_⟩
    · rw [← hpath]
      exact hend.empty
    · rw [← hpath]
      exact hend.full j hj
  refine ⟨hhome, m, hend, h.probesRun hend, ?_⟩
  have hprobes := h.probesRun hend'
  unfold ProbesRun at hprobes ⊢
  simp only [hpath]
  exact hprobes

/-! ## FNV-1a -/

variable [LawfulElement κ] [LawfulElement ν] [Digest κ] [BEq κ]

/-- **Low bits choose the run.**  The low bits of a hash see only the low bits of the bytes, at either width
and from any start.  In a table with `2 ^ k` slots, keys whose digests agree in their low `k` bits therefore
share a run. -/
theorem low_bits_choose_run :
    Fnv.bits32.SeesLowBits ∧ Fnv.bits64.SeesLowBits ∧
      ∀ s : ProbeTable κ ν × Host, Reached (Keying.fnv κ) s → ∀ k ≤ 8, s.1.capacity = 2 ^ k →
        ∀ a b : κ, Fnv.AgreeBelow k (Digest.digest a) (Digest.digest b) →
          fnvHash a ≠ 0 → fnvHash b ≠ 0 → s.1.SharesRun a b := by
  refine ⟨Fnv.Variant.seesLowBits (by decide) _, Fnv.Variant.seesLowBits (by decide) _, ?_⟩
  intro s hrun k hk hcapacity a b hagree ha hb
  obtain ⟨hsound, hkeying, _⟩ := hrun.sound
  refine hsound.sharesRun ?_
  have hhash : ∀ key, s.1.keying.hash key = Keying.fnvHash key := by
    intro key
    rw [hkeying]
    rfl
  have power : s.1.capacity.isPowerOfTwo := hsound.fitted.power
  rw [and_mask power, and_mask power, hhash, hhash, hcapacity]
  exact Keying.fnvHash_modEq hk hagree ha hb

/-- With 16 slots, 1 and 17 share a run. -/
theorem low_bits_choose_run_sixteen :
    ∃ (t : ProbeTable (FixedInt ⟨32, true⟩) (FixedInt ⟨32, true⟩)) (host : Host),
      create (Keying.fnv _) _ Host.ordinary = .ok t host ∧
        (Prog.session TableStep.run
          [.put (.ofInt _ 1) (.ofInt _ 5), .put (.ofInt _ 17) (.ofInt _ 6)]
          (t, host)).2.1.SharesRun (.ofInt _ 1) (.ofInt _ 17) := by
  obtain ⟨t, host, hcreate, hcapacity⟩ :
      ∃ (t : ProbeTable (FixedInt ⟨32, true⟩) (FixedInt ⟨32, true⟩)) (host : Host),
        create (Keying.fnv _) _ Host.ordinary = .ok t host ∧
        (Prog.session TableStep.run
          [.put (.ofInt _ 1) (.ofInt _ 5), .put (.ofInt _ 17) (.ofInt _ 6)]
          (t, host)).2.1.capacity = 2 ^ 4 :=
    ⟨_, _, rfl, by decide +kernel⟩
  refine ⟨t, host, hcreate, low_bits_choose_run.2.2 _ ?_ 4 (by decide) hcapacity _ _ ?_ ?_ ?_⟩
  · exact ⟨Host.ordinary, host, t, _, Host.ordinary_sound.inBounds, hcreate, rfl⟩
  · have h0 : (0 : UInt8).toNat ≡ (0 : UInt8).toNat [MOD 2 ^ 4] := rfl
    have h1 : (1 : UInt8).toNat ≡ (17 : UInt8).toNat [MOD 2 ^ 4] := rfl
    exact .cons h1 (.cons h0 (.cons h0 (.cons h0 .nil)))
  · decide +kernel
  · decide +kernel

end ProbeTable

end AlignedSlots
