import Mathlib
import AlignedSlots.Proofs.Container.Lifecycle
import AlignedSlots.Proofs.Memory.ArenaLaws

/-!
# The lifecycle of an arena

An arena owns its block from the moment it is made, and no call turns it over or fails: a piece that is
refused is an answer.
-/

namespace AlignedSlots

/-- A call of an arena. -/
inductive ArenaCall where
  | take (size : Nat)
  | takeZeroed (size : Nat)
  | reset
  | writeBytes (offset : Nat) (bytes : List UInt8)
  | remaining

/-- Runs a call. -/
def ArenaCall.run : ArenaCall → Hosted Refusal (Arena × Unit) Unit
  | take size => (fun _ => ()) <$> Hosted.onObject (Arena.take size)
  | takeZeroed size => (fun _ => ()) <$> Hosted.onObject (Arena.takeZeroed size)
  | reset => Hosted.onObject Arena.reset
  | writeBytes offset bytes => Hosted.onObject (Arena.writeBytes offset bytes)
  | remaining => (fun _ => ()) <$> Hosted.asking fun a => Failure.ofChecked a.remaining

namespace Arena

/-- Arenas of a size, as they are seen from the heap. -/
def lifecycle (size : Nat) : Lifecycle where
  Object := Arena
  Visitors := Unit
  Call := ArenaCall
  Error := Refusal
  make := create size
  run := ArenaCall.run
  drop := drop
  owned a := some a.block.raw.base
  Stores _ := True
  MakeAnswers e := e = .refused
  Answers _ _ := False
  Panics _ _ _ := False
  Calm _ := True

variable {a : Arena} {host : Host}

/-- **Every call** keeps an arena sound and its block where it is, and does not fail. -/
theorem run_tends (c : ArenaCall) (h : a.Sound) (host : Host) :
    c.run.Tends (fun a => some a.block.raw.base) Sound (fun _ => False) a () host := by
  cases c with
  | take size =>
    apply Hosted.Tends.map
    apply Hosted.Tends.onObject
    apply (take_ends h size host).mono
    · rintro _ ⟨_, _⟩ ⟨hheap, ⟨hfits, _, rfl⟩ | ⟨_, _, rfl⟩⟩
      · exact ⟨h.taken hfits, .of_eq rfl hheap⟩
      · exact ⟨h, .of_eq rfl hheap⟩
    · exact fun _ _ hfalse => hfalse.elim
  | takeZeroed size =>
    apply Hosted.Tends.map
    apply Hosted.Tends.onObject
    apply (takeZeroed_ends h size host).mono
    · rintro _ ⟨_, _⟩ ⟨hheap, ⟨hfits, _, rfl⟩ | ⟨_, _, rfl⟩⟩
      · exact ⟨(h.taken hfits).fill _ _ _, .of_eq (congrArg some (Parcel.base_mapCells _ _)) hheap⟩
      · exact ⟨h, .of_eq rfl hheap⟩
    · exact fun _ _ hfalse => hfalse.elim
  | reset =>
    refine Hosted.Tends.onObject (m := reset) ?_
    apply Prog.Ends.of_ok (setOffset_eq 0 a host)
    exact ⟨h.reset, .kept _⟩
  | writeBytes offset bytes =>
    refine Hosted.Tends.onObject (m := Arena.writeBytes offset bytes) ?_
    apply Prog.Ends.of_ok (updateBlock_eq _ a host)
    exact ⟨h.writeBytes offset bytes, .of_eq (congrArg some (Parcel.base_mapCells _ _)) rfl⟩
  | remaining =>
    apply Hosted.Tends.map
    refine Hosted.Tends.asking h fun e he => ?_
    rw [remaining_eq h] at he
    cases he

/-- **What an arena keeps**, whatever is done with it. -/
theorem tended (size : Nat) : (lifecycle size).Tended True Sound where
  make_ends host bounds := by
    apply (create_ends size host bounds).mono
    · rintro a host' ⟨hsound, _, _, hheap⟩
      refine ⟨hsound, ?_⟩
      rw [hheap]
      exact .first _ _
    · rintro e host' ⟨rfl, hrefuses⟩
      exact ⟨.of_refuses hrefuses none, fun _ => rfl⟩
  run_tends c a _ host h _ := by
    apply (run_tends c h host).mono
    · exact fun _ _ hok => hok
    · exact fun _ _ ⟨_, _, hfalse⟩ => hfalse.elim
  drop_ends a host h := drop_ends h host
  stores_iff a _ := iff_of_true rfl trivial

end Arena

end AlignedSlots
