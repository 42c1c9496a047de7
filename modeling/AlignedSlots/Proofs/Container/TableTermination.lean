import Mathlib
import AlignedSlots.Proofs.Container.TableReach
import AlignedSlots.Proofs.Probe.Runs

/-!
# The loops of a table end

A probe and the settling of a run go on until they meet an empty slot.  Nothing else stops them: their
fuel is no bound of theirs, and a loop that would need more of it faults.  So the statements here quantify
over the fuel.  `ProbeTable.ProbesWithin` and `ProbeTable.SettlesWithin` say that a loop ends within a
number of slots, and in the same way with any more fuel.

`ProbeTable.session_loops_end` is about every table that a run reaches, with any function at all for the
sameness of keys.  Entries may then be merged when a table grows or settles, so that the length is only a
bound for the number of entries.
-/

namespace AlignedSlots

namespace ProbeTable

open Cyclic Row

variable {κ ν ε : Type} [Element κ] [Element ν] {slots s s' : Slots} {keying : Keying κ}
  {hash : UInt64} {key : κ} {mask fuel fuel' index : Nat}

/-! ## More fuel -/

/-- A probe that ends does so with any more fuel. -/
theorem probeFrom_mono {landing : Landing} (h : probeFrom slots keying hash key mask fuel index =
    .ok landing) (hle : fuel ≤ fuel') :
    probeFrom slots keying hash key mask fuel' index = .ok landing := by
  induction fuel generalizing fuel' index with
  | zero => cases h
  | succ fuel ih =>
    obtain ⟨more, rfl⟩ : ∃ more, fuel' = more + 1 := ⟨fuel' - 1, by omega⟩
    unfold probeFrom at h ⊢
    refine checked_bind_mono h fun held h => ?_
    by_cases hvacant : held = 0
    · rw [if_pos hvacant] at h ⊢
      exact h
    rw [if_neg hvacant] at h ⊢
    refine checked_bind_mono h fun same h => ?_
    cases same with
    | true => exact h
    | false => exact checked_bind_mono h fun next h => ih h (by omega)

/-- Settling that ends does so with any more fuel. -/
theorem settleFrom_mono (h : settleFrom (ε := ε) keying ν mask fuel index s = .ok () s')
    (hle : fuel ≤ fuel') : settleFrom (ε := ε) keying ν mask fuel' index s = .ok () s' := by
  induction fuel generalizing fuel' index s with
  | zero => cases h
  | succ fuel ih =>
    obtain ⟨more, rfl⟩ : ∃ more, fuel' = more + 1 := ⟨fuel' - 1, by omega⟩
    unfold settleFrom at h ⊢
    refine Prog.bind_mono h fun now s h => ?_
    refine Prog.bind_mono h fun held s h => ?_
    by_cases hdone : held.hash = 0
    · rw [if_pos hdone] at h ⊢
      exact h
    rw [if_neg hdone] at h ⊢
    refine Prog.bind_mono h fun taken s h => ?_
    refine Prog.bind_mono h fun answer s h => ?_
    exact Prog.bind_mono h fun next s h => ih h (by omega)

/-! ## How much fuel is enough -/

/-- How many of the slots hold an entry. -/
def occupied (κ ν : Type) [Element κ] [Element ν] (s : Slots) : Nat :=
  (List.range s.capacity).countP fun i => decide ((s.item i : Entry κ ν).hash ≠ 0)

/-- Every probe of the slots looks at no more than `budget` of them. -/
def ProbesWithin (keying : Keying κ) (s : Slots) (budget : Nat) : Prop :=
  ∀ hash key, ∃ landing, probe s keying hash key = .ok landing ∧ ∀ fuel, budget ≤ fuel →
    probeFrom s keying hash key (s.capacity - 1) fuel (hash.toNat &&& (s.capacity - 1)) = .ok landing

/-- When slot `q` has been emptied, settling looks at no more than `budget` slots behind it. -/
def SettlesWithin (keying : Keying κ) (ν : Type) [Element ν] (s : Slots) (q budget : Nat) : Prop :=
  ∃ (held : Entry κ ν) (emptied settled : Slots),
    takeEntry (ε := ContainerError) q s = .ok held emptied ∧
      settle (ε := ContainerError) keying ν q emptied = .ok () settled ∧
      ∀ fuel, budget ≤ fuel → settleFrom (ε := ContainerError) keying ν (s.capacity - 1) fuel
        ((q + 1) &&& (s.capacity - 1)) emptied = .ok () settled

theorem occupied_eq (κ ν : Type) [Element κ] [Element ν] (s : Slots) :
    occupied κ ν s = (contents s.capacity (s.item (α := Entry κ ν))).length :=
  (length_contents _ _).symm

/-- **A probe** looks at the occupied slots at most, and at the empty one where it ends. -/
theorem probesWithin (h : Fitted κ ν s) (hspace : ∃ z < s.capacity, (s.item z : Entry κ ν).hash = 0)
    (keying : Keying κ) : ProbesWithin keying s (occupied κ ν s + 1) := by
  intro hash key
  obtain ⟨landing, hprobe, hlands⟩ := probe_lands h hspace keying hash key
  refine ⟨landing, hprobe, fun fuel hfuel => ?_⟩
  have hhome : home s.capacity hash < s.capacity := home_lt h.capacity_pos hash
  have hself := steps_self s.capacity (home s.capacity hash)
  -- The slots from the home slot to the first empty one behind it are all occupied.
  obtain ⟨z, hz, hempty, hfull⟩ := exists_first_empty (home s.capacity hash) hspace
  have hround := steps_lt hz hhome
  have hcount := le_length_contents hhome (Nat.le_of_lt hround) hfull
  rw [← occupied_eq] at hcount
  have hpassed : Passed keying s.capacity (s.item (α := Entry κ ν)) hash key
      (home s.capacity hash) := by
    intro t _ hlt
    rw [hself] at hlt
    exact absurd hlt (Nat.not_lt_zero _)
  have hlasts : steps s.capacity (home s.capacity hash) z <
      occupied κ ν s + 1 + steps s.capacity (home s.capacity hash) (home s.capacity hash) := by
    rw [hself]
    exact Nat.lt_succ_of_le hcount
  obtain ⟨landing', hrun, hlands'⟩ := probeFrom_lands h hz (.inl hempty) hhome hpassed hlasts
  rw [and_mask h.power]
  cases hlands.unique hlands'
  exact probeFrom_mono hrun hfuel

variable [LawfulElement κ] [LawfulElement ν] {t : ProbeTable κ ν}

/-- **Settling** goes to the end of the run, which is as long as there are entries at most. -/
theorem settlesWithin (h : t.Sound) {q : Nat} (hq : q < t.capacity) (hfull : (t.row q).hash ≠ 0) :
    SettlesWithin t.keying ν t.slots q (occupied κ ν t.slots) := by
  obtain ⟨held, emptied, htake, rfl, hemptied⟩ :=
    (takeEntry_ends (κ := κ) (ν := ν) (ε := ContainerError) h.fitted hq).exists_ok
  have hcapacity : emptied.capacity = t.capacity := hemptied.capacity_eq
  obtain ⟨z, hz, hempty, hrun⟩ := exists_first_empty q h.exists_empty
  have hzq : z ≠ q := by
    rintro rfl
    exact hfull hempty
  have hround := steps_lt hz hq
  have hcount := le_length_contents hq (Nat.le_of_lt hround) hrun
  obtain ⟨_, settled, hsettle, _⟩ := (settleFrom_next_ends (ε := ContainerError) hemptied.fitted
    t.keying (hcapacity ▸ h.probing) hemptied.item_eq (hcapacity ▸ hq) (hcapacity ▸ hz) hzq hempty
    (Nat.le_refl _)).exists_ok
  rw [hcapacity] at hsettle
  refine ⟨_, emptied, settled, htake, ?_, fun fuel hfuel => ?_⟩
  · rw [settle_eq hemptied.fitted t.keying (hcapacity ▸ hq), hcapacity]
    exact settleFrom_mono hsettle (Nat.le_of_lt hround)
  · have hmask : (q + 1) &&& (t.slots.capacity - 1) = next t.capacity q :=
      succ_and_mask h.fitted.power hq
    rw [occupied_eq] at hfuel
    rw [hmask]
    exact settleFrom_mono hsettle (Nat.le_trans hcount hfuel)

/-! ## Tables -/

/-- What bounds the loops of a table: how many entries there are, and that the way to each of them leads
over occupied slots. -/
structure Bounded (t : ProbeTable κ ν) : Prop where
  read : ∀ i < t.capacity, entryAt t.slots i = .ok (t.row i)
  occupied_le : occupied κ ν t.slots ≤ t.length
  length_le : t.length ≤ t.capacity / 2
  exists_empty : ∃ i < t.capacity, (t.row i).hash = 0
  /-- Every slot from the home slot of an entry to its own holds an entry. -/
  path : ∀ i < t.capacity, (t.row i).hash ≠ 0 →
    ∃ n < t.capacity, (((t.row i).hash.toNat &&& (t.capacity - 1)) + n) % t.capacity = i ∧
      ∀ j ≤ n, (t.row ((((t.row i).hash.toNat &&& (t.capacity - 1)) + j) % t.capacity)).hash ≠ 0
  probes : ProbesWithin t.keying t.slots (occupied κ ν t.slots + 1)
  /-- The length can go down where there is an entry to be taken out. -/
  settles : ∀ q < t.capacity, (t.row q).hash ≠ 0 →
    0 < t.length ∧ SettlesWithin t.keying ν t.slots q (occupied κ ν t.slots)

theorem Sound.bounded (h : t.Sound) : t.Bounded where
  read _ hi := entryAt_eq h.fitted hi
  occupied_le := by
    rw [occupied_eq]
    exact h.entries_le
  length_le := h.length_le
  exists_empty := h.exists_empty
  path _ hi hfull := h.path hi hfull
  probes := probesWithin h.fitted h.exists_empty t.keying
  settles _ hq hfull := ⟨h.length_pos hq hfull, settlesWithin h hq hfull⟩

/-- The program ends in a value, or with a refused allocation. -/
def Finishes {σ α : Type} (m : Prog ContainerError σ α) (s : σ) : Prop :=
  (∃ a s', m s = .ok a s') ∨ ∃ s', m s = .error (.error .badAlloc) s'

/-- **The loops of a table end**, in every state that a run reaches and whatever the sameness of keys is.
Every operation and every growth finishes, and a step that stores nothing ends in a value.  The last part
is about the slots that the loops of an erase and a growth work on between two of their rounds. -/
theorem session_loops_end {s : ProbeTable κ ν × Host} (hzero : ∀ a, keying.hash a ≠ 0)
    (hrun : Reached keying s) :
    s.1.Bounded ∧
      (∀ step : TableStep κ ν, Finishes step.run s ∧
        (¬ step.Stores → ∃ answer s', step.run s = .ok answer s')) ∧
      Finishes grow s ∧
      ∀ slots, Fitted κ ν slots → occupied κ ν slots < slots.capacity →
        ProbesWithin keying slots (occupied κ ν slots + 1) := by
  obtain ⟨hsound, hkeying, hbounds⟩ := hrun.sound
  obtain ⟨t, host⟩ := s
  subst hkeying
  refine ⟨hsound.bounded, fun step => ?_, ?_, fun slots hfitted hless => ?_⟩
  · rcases (step.run_ends hsound (hzero _) host hbounds).run_eq with
      ⟨answer, s', heq, _⟩ | ⟨_, s', heq, rfl, hstores, _⟩
    · exact ⟨.inl ⟨answer, s', heq⟩, fun _ => ⟨answer, s', heq⟩⟩
    · exact ⟨.inr ⟨s', heq⟩, fun hnot => absurd hstores hnot⟩
  · rcases (grow_ends hsound host hbounds).run_eq with ⟨_, s', heq, _⟩ | ⟨_, s', heq, rfl, _⟩
    · exact .inl ⟨(), s', heq⟩
    · exact .inr ⟨s', heq⟩
  · rw [occupied_eq] at hless
    exact probesWithin hfitted (Row.exists_empty hless) t.keying

/-- A sameness that is neither reflexive nor symmetric. -/
theorem session_loops_end_one_way :
    ∃ (t : ProbeTable Bool (FixedInt ⟨32, true⟩)) (host : Host),
      create ⟨fun _ => 1, fun stored key => stored && !key⟩ _ Host.ordinary = .ok t host ∧
        (Prog.session TableStep.run
          [.put true (.ofInt _ 1), .put true (.ofInt _ 2), .put false (.ofInt _ 3), .erase true]
          (t, host)).2.1.Bounded := by
  obtain ⟨t, host, hcreate⟩ := exists_create_eq_ok (ν := FixedInt ⟨32, true⟩)
    ⟨fun _ : Bool => 1, fun stored key => stored && !key⟩ Host.ordinary (64 + 2 ^ 37)
    (by decide) Host.ordinary_sound.inBounds (by decide) (by decide)
  have hreached : Reached ⟨fun _ : Bool => 1, fun stored key => stored && !key⟩
      (Prog.session TableStep.run
        [.put true (.ofInt _ 1), .put true (.ofInt _ 2), .put false (.ofInt _ 3), .erase true]
        (t, host)).2 :=
    ⟨Host.ordinary, host, t, _, Host.ordinary_sound.inBounds, hcreate, rfl⟩
  exact ⟨t, host, hcreate,
    (session_loops_end (fun _ => (by decide : (1 : UInt64) ≠ 0)) hreached).1⟩

end ProbeTable

end AlignedSlots
