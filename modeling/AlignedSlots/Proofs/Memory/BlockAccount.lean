import Mathlib
import AlignedSlots.Proofs.Memory.Placing

/-!
# The account of raw blocks

`outstanding` counts the blocks that some calls to the heap have left out, and has no answer where a
block was taken back that was not out: then it was never handed out, or taken back twice.  Blocks count by
their address, each as often as it was handed out, so the account needs no promise about where the heap
puts them.

Somebody who owns at most one block at a time keeps the account by turnovers: `Turnover` lists all that
one operation may do with the heap, and `Turnover.owes` says that it leaves out exactly the block owned
then.
-/

namespace AlignedSlots

/-- The blocks that are out after some calls, the latest call first. -/
def outstanding : List HeapEvent → Option (List Nat)
  | [] => some []
  | .granted _ base :: earlier => (outstanding earlier).map fun live => base :: live
  | .refused _ :: earlier => outstanding earlier
  | .freed base :: earlier =>
    (outstanding earlier).bind fun live => if base ∈ live then some (live.erase base) else none

/-- As many blocks were handed out as were taken back and are out. -/
theorem countP_isGrant_of_outstanding {events : List HeapEvent} {live : List Nat}
    (h : outstanding events = some live) :
    events.countP HeapEvent.isGrant = events.countP HeapEvent.isFree + live.length := by
  induction events generalizing live with
  | nil =>
    cases h
    rfl
  | cons event earlier ih =>
    cases event with
    | granted size base =>
      obtain ⟨live', hlive, rfl⟩ := Option.map_eq_some_iff.mp h
      rw [List.countP_cons_of_pos (by rfl), List.countP_cons_of_neg (by simp [HeapEvent.isFree]),
        ih hlive, List.length_cons]
      omega
    | refused size =>
      rw [List.countP_cons_of_neg (by simp [HeapEvent.isGrant]),
        List.countP_cons_of_neg (by simp [HeapEvent.isFree])]
      exact ih h
    | freed base =>
      obtain ⟨live', hlive, htaken⟩ := Option.bind_eq_some_iff.mp h
      by_cases hmem : base ∈ live'
      · rw [if_pos hmem] at htaken
        cases htaken
        have hlength := List.length_erase_of_mem hmem
        have hpos := List.length_pos_of_mem hmem
        rw [List.countP_cons_of_neg (by simp [HeapEvent.isGrant]), List.countP_cons_of_pos (by rfl),
          ih hlive]
        omega
      · rw [if_neg hmem] at htaken
        cases htaken

/-- Since `start`, every block that was taken back was out, and these blocks are out still. -/
def Owes (start heap : Heap) (live : List Nat) : Prop :=
  ∃ events, heap = start.after events ∧ outstanding events = some live ∧
    events.countP HeapEvent.isGrant = events.countP HeapEvent.isFree + live.length

/-- What one operation does with the heap, for somebody who owns a block or none before and after. -/
inductive Turnover (heap : Heap) : Option Nat → Option Nat → Heap → Prop
  /-- The heap is not asked. -/
  | kept (owned : Option Nat) : Turnover heap owned owned heap
  /-- The heap refuses, and nothing is taken back. -/
  | refused (owned : Option Nat) (size : Nat) :
      Turnover heap owned owned (heap.after [.refused size])
  /-- The first block is handed out. -/
  | first (size base : Nat) : Turnover heap none (some base) (heap.after [.granted size base])
  /-- Another block is handed out, and only then the old one is taken back. -/
  | moved (old size base : Nat) :
      Turnover heap (some old) (some base) (heap.after [.freed old, .granted size base])

namespace Owes

variable {start heap : Heap} {live : List Nat}

theorem of_outstanding (events : List HeapEvent) (h : outstanding events = some live) :
    Owes start (start.after events) live :=
  ⟨events, rfl, h, countP_isGrant_of_outstanding h⟩

theorem refl (start : Heap) : Owes start start [] := of_outstanding [] rfl

/-- The block is taken back. -/
theorem freed {base : Nat} (h : Owes start heap [base]) :
    Owes start (heap.after [.freed base]) [] := by
  obtain ⟨events, rfl, houtstanding, _⟩ := h
  refine of_outstanding (.freed base :: events) ?_
  simp only [outstanding, houtstanding, Option.bind_some, List.mem_singleton, if_true,
    List.erase_cons_head]

end Owes

namespace Turnover

variable {start heap heap' : Heap} {old new : Option Nat}

/-- Nothing has happened. -/
theorem of_eq (howned : new = old) (hheap : heap' = heap) : Turnover heap old new heap' := by
  subst howned
  subst hheap
  exact .kept new

theorem placement_eq (h : Turnover heap old new heap') : heap'.placement = heap.placement := by
  cases h <;> rfl

/-- **A turnover keeps the account.** -/
theorem owes (h : Turnover heap old new heap') (howes : Owes start heap old.toList) :
    Owes start heap' new.toList := by
  obtain ⟨events, rfl, houtstanding, _⟩ := howes
  cases h with
  | kept _ => exact .of_outstanding events houtstanding
  | refused _ size => exact .of_outstanding (.refused size :: events) houtstanding
  | first size base =>
    refine .of_outstanding (.granted size base :: events) ?_
    simp only [outstanding, houtstanding, Option.map_some, Option.toList]
  | moved old size base =>
    refine .of_outstanding (.freed old :: .granted size base :: events) ?_
    -- Both blocks are out for a moment.  Nothing says that they have different addresses.
    have hmem : old ∈ [base, old] := by simp
    simp only [outstanding, houtstanding, Option.map_some, Option.bind_some, Option.toList]
    rw [if_pos hmem]
    by_cases hsame : base = old
    · subst hsame
      rw [List.erase_cons_head]
    · rw [List.erase_cons_tail (by simpa using hsame), List.erase_cons_head]

/-- A request that goes wrong takes nothing back. -/
theorem of_refuses {align size : Nat} (h : Parcel.Refuses heap align size heap')
    (owned : Option Nat) : Turnover heap owned owned heap' := by
  rcases h with ⟨_, rfl⟩ | ⟨_, _, _, rfl⟩
  · exact .kept owned
  · exact .refused owned _

end Turnover

end AlignedSlots
