import Mathlib
import AlignedSlots.Host
import AlignedSlots.Memory.Placement

/-!
# The raw blocks that are out

What the history of a heap says about its blocks: `liveRegions` are the ones that were handed out and
not taken back, and in a `WellFreed` history every free takes back one of them.  A free takes its block
off the list, so no block is freed twice without being handed out again in between.

What a heap promises about the blocks it hands out is said of its placement: `Placement.InBounds` and,
stronger, `Placement.Sound`.
-/

namespace AlignedSlots

/-- A range of addresses. -/
structure Region where
  base : Nat
  size : Nat
  deriving DecidableEq

namespace Region

/-- No address is in both ranges. -/
def Apart (r q : Region) : Prop := r.base + r.size ≤ q.base ∨ q.base + q.size ≤ r.base

instance (r q : Region) : Decidable (r.Apart q) := inferInstanceAs (Decidable (_ ∨ _))

theorem Apart.symm {r q : Region} (h : r.Apart q) : q.Apart r := Or.symm h

end Region

/-- The addresses of a raw block. -/
def RawBlock.region (b : RawBlock) : Region := ⟨b.base, b.size⟩

/-- The blocks that were handed out and not taken back, the latest one first. -/
def liveRegions : List HeapEvent → List Region
  | [] => []
  | .granted size base :: earlier => ⟨base, size⟩ :: liveRegions earlier
  | .refused _ :: earlier => liveRegions earlier
  | .freed base :: earlier => (liveRegions earlier).filter fun r => r.base != base

/-- Every free takes back a block that is out at that moment. -/
def WellFreed : List HeapEvent → Prop
  | [] => True
  | .granted _ _ :: earlier => WellFreed earlier
  | .refused _ :: earlier => WellFreed earlier
  | .freed base :: earlier => (∃ r ∈ liveRegions earlier, r.base = base) ∧ WellFreed earlier

/-! ## What a heap promises -/

namespace Placement

/-- Every block that is handed out ends inside the address space. -/
def InBounds (p : Placement) : Prop :=
  ∀ history size base, p history size = some base → base + size ≤ 2 ^ Word.width

/-- Every block that is handed out ends inside the address space, and has no address in common with
any block that is out. -/
def Sound (p : Placement) : Prop :=
  ∀ history size base, p history size = some base →
    base + size ≤ 2 ^ Word.width ∧ ∀ r ∈ liveRegions history, Region.Apart ⟨base, size⟩ r

theorem Sound.inBounds {p : Placement} (h : p.Sound) : p.InBounds :=
  fun history size base hbase => (h history size base hbase).1

theorem InBounds.withBudget {p : Placement} (h : p.InBounds) (budget : Nat) :
    (Placement.withBudget budget p).InBounds := by
  intro history size base hbase
  unfold Placement.withBudget at hbase
  split at hbase
  · cases hbase
  · exact h history size base hbase

/-- A placement that refuses what another one would place wrongly. -/
def checked (p : Placement) : Placement := fun history size =>
  (p history size).filter fun base =>
    decide (base + size ≤ 2 ^ Word.width ∧ ∀ r ∈ liveRegions history, Region.Apart ⟨base, size⟩ r)

theorem checked_sound (p : Placement) : (checked p).Sound := by
  intro history size base h
  obtain ⟨_, hchecked⟩ := Option.filter_eq_some_iff.mp h
  exact of_decide_eq_true hchecked

end Placement

/-- A host with an ordinary heap, before its first call. -/
def Host.ordinary : Host := ⟨Heap.ofPlacement (.checked .plain) 0, {}⟩

theorem Host.ordinary_sound : Host.ordinary.heap.placement.Sound := Placement.checked_sound _

end AlignedSlots
