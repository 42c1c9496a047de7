import Mathlib
import AlignedSlots.Proofs.Container.ArrayCalls
import AlignedSlots.Proofs.Container.BufferCalls
import AlignedSlots.Proofs.Container.SequenceCalls
import AlignedSlots.Proofs.Container.TableCalls
import AlignedSlots.Proofs.Memory.ArenaCalls

/-!
# Safety of the containers

Two statements about all five kinds of containers and every run of each, whatever the heap refuses on the
way.  `containers_balanced` is about the heap: one block for each container, none that is lost, and none
that is taken back twice.  `containers_documented` is about failures: no arithmetic overflows and no
assertion about slots or alignments stops a call.
-/

namespace AlignedSlots

variable {α κ υ ν : Type} [Element α] [LawfulElement α] [Initial α] [Element κ] [LawfulElement κ]
  [Element υ] [LawfulElement υ] {host : Host}

/-- **No block is lost or taken back twice**, and a container owns one block while it stores something.
This holds through calls that answer an error and calls that stop at a fault. -/
theorem containers_balanced (keying : Keying κ) (align n size : Nat)
    (bounds : host.heap.placement.InBounds) :
    (Sequence.lifecycle α ν).Balanced host ∧ (Buffer.lifecycle α ν align).Balanced host ∧
      (StaticArray.lifecycle α ν n align).Balanced host ∧
      (ProbeTable.lifecycle keying υ ν).Balanced host ∧ (Arena.lifecycle size).Balanced host :=
  ⟨(Sequence.tended α ν).balanced bounds, (Buffer.tended α ν align).balanced bounds,
    (StaticArray.tended α ν n align).balanced bounds, (ProbeTable.tended keying υ ν).balanced bounds,
    (Arena.tended size).balanced bounds⟩

/-- A sequence owns the one block that is out after an element was put in and an element was asked for
that there is not. -/
theorem containers_balanced_pushed :
    ∃ (v : Sequence (FixedInt ⟨32, true⟩)) (s : (Sequence (FixedInt ⟨32, true⟩) × Unit) × Host)
      (base : Nat),
      Host.ordinary.heap.placement.InBounds ∧ Sequence.empty (FixedInt ⟨32, true⟩) = .ok v ∧
      (Prog.session SequenceCall.run [.step (.push (.ofInt _ 1)), .step (.index 7)]
        ((v, ()), Host.ordinary)).2 = s ∧
      s.1.1.toList = [.ofInt _ 1] ∧ s.1.1.slots.base = some base ∧
      Owes Host.ordinary.heap s.2.heap [base] := by
  let calls : List (SequenceCall (FixedInt ⟨32, true⟩) Unit) :=
    [.step (.push (.ofInt _ 1)), .step (.index 7)]
  have hmake : (Sequence.lifecycle (FixedInt ⟨32, true⟩) Unit).make Host.ordinary =
      .ok ⟨Slots.empty 4 8, 0⟩ Host.ordinary := rfl
  obtain ⟨hbalanced, _⟩ := containers_balanced (α := FixedInt ⟨32, true⟩) (ν := Unit)
    (υ := FixedInt ⟨32, true⟩) (Keying.mk (fun _ : Bool => 1) (· == ·)) 16 0 0
    Host.ordinary_sound.inBounds
  have hlist : (Prog.session SequenceCall.run calls
      ((⟨Slots.empty 4 8, 0⟩, ()), Host.ordinary)).2.1.1.toList = [.ofInt _ 1] := by decide +kernel
  have hcapacity : (Prog.session SequenceCall.run calls
      ((⟨Slots.empty 4 8, 0⟩, ()), Host.ordinary)).2.1.1.capacity ≠ 0 := by decide +kernel
  obtain ⟨howes, hstores⟩ := hbalanced.session _ _ () calls _ hmake rfl
  obtain ⟨base, hbase⟩ := Option.isSome_iff_exists.mp (hstores.mpr hcapacity)
  rw [hbase] at howes
  exact ⟨_, _, base, Host.ordinary_sound.inBounds, rfl, rfl, hlist, hbase, howes⟩

/-- **Every failure is a documented one**, where the layouts of the elements and the alignment are
supported: an error that the call is said to answer, an index past the end of a sequence, or a key whose
hash is 0. -/
theorem containers_documented (keying : Keying κ) {align : Nat} (n size : Nat) (hα : Supported α)
    (hκ : Supported κ) (hυ : Supported υ) (valid : ValidAlign align)
    (bounds : host.heap.placement.InBounds) :
    (Sequence.lifecycle α ν).Documented host ∧ (Buffer.lifecycle α ν align).Documented host ∧
      (StaticArray.lifecycle α ν n align).Documented host ∧
      (ProbeTable.lifecycle keying υ ν).Documented host ∧ (Arena.lifecycle size).Documented host :=
  ⟨(Sequence.tended α ν).documented hα bounds,
    (Buffer.tended α ν align).documented ⟨hα, valid⟩ bounds,
    (StaticArray.tended α ν n align).documented ⟨hα, valid⟩ bounds,
    (ProbeTable.tended keying υ ν).documented ⟨hκ.align_le, hυ.align_le⟩ bounds,
    (Arena.tended size).documented trivial bounds⟩

/-- A put stops at a key whose hash is 0, as it is said to. -/
theorem containers_documented_zero :
    ∃ (t : ProbeTable Bool (FixedInt ⟨32, true⟩)) (host : Host)
      (s : (ProbeTable Bool (FixedInt ⟨32, true⟩) × Unit) × Host),
      ProbeTable.create ⟨fun key => if key then 1 else 0, (· == ·)⟩ _ Host.ordinary = .ok t host ∧
      (Prog.session TableCall.run [.step (.put true (.ofInt _ 1))] ((t, ()), host)).2 = s ∧
      (TableCall.step (.put false (.ofInt _ 2))).run.answer s = .error (.fault .zeroHash) ∧
      (TableStep.put false (.ofInt _ 2)).Panics s.1.1 .zeroHash := by
  have hbool : Supported Bool := ⟨by decide, by decide⟩
  have hint : Supported (FixedInt ⟨32, true⟩) := ⟨by decide, by decide⟩
  have hvalid : ValidAlign 16 := ⟨⟨4, rfl⟩, by decide⟩
  let keying : Keying Bool := ⟨fun key => if key then 1 else 0, (· == ·)⟩
  let calls : List (TableCall Bool (FixedInt ⟨32, true⟩) Unit) := [.step (.put true (.ofInt _ 1))]
  let call : TableCall Bool (FixedInt ⟨32, true⟩) Unit := .step (.put false (.ofInt _ 2))
  obtain ⟨t, host, hcreate, hanswer⟩ :
      ∃ (t : ProbeTable Bool (FixedInt ⟨32, true⟩)) (host : Host),
        ProbeTable.create keying _ Host.ordinary = .ok t host ∧
        call.run.answer (Prog.session TableCall.run calls ((t, ()), host)).2 =
          .error (.fault .zeroHash) :=
    ⟨_, _, rfl, by decide +kernel⟩
  obtain ⟨_, _, _, hdocumented, _⟩ := containers_documented (ν := Unit) keying 0 0 hint hbool hint
    hvalid Host.ordinary_sound.inBounds
  exact ⟨t, host, _, hcreate, rfl, hanswer,
    hdocumented.session t host () calls _ call _ hcreate rfl trivial hanswer⟩

end AlignedSlots
