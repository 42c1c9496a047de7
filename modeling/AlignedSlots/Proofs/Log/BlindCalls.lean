import Mathlib
import AlignedSlots.Proofs.Container.ArrayCalls
import AlignedSlots.Proofs.Container.BufferCalls
import AlignedSlots.Proofs.Container.SequenceCalls
import AlignedSlots.Proofs.Container.TableCalls
import AlignedSlots.Proofs.Log.BlindOperations
import AlignedSlots.Proofs.Memory.ArenaSessions

/-!
# Calls that are blind to the log

The calls of the containers, each with all that it answers, and that every one of them is blind to the log.
Visitors know nothing of the host, so that a walk is blind whatever its visitor does.
-/

namespace AlignedSlots

open Prog (Blind)

/-! ## Sequences -/

section Sequences

variable {α ν β : Type}

namespace SequenceStep

theorem onSequence_eq (m : Hosted ContainerError (Sequence α) β) :
    (onSequence m : Hosted ContainerError (Sequence α × ν) β) = Hosted.onObject m := by
  funext s
  simp only [onSequence, Hosted.onObject]
  cases m (s.1.1, s.2) <;> rfl

theorem offHost_eq (m : Prog ContainerError (Sequence α × ν) β) :
    SequenceStep.offHost m = Hosted.offHost m := by
  funext s
  simp only [SequenceStep.offHost, Hosted.offHost]
  cases m s.1 <;> rfl

theorem blind_onSequence {m : Hosted ContainerError (Sequence α) β} (h : Hosted.Blind m) :
    Hosted.Blind (onSequence m : Hosted ContainerError (Sequence α × ν) β) := by
  rw [onSequence_eq]
  exact h.onObject

theorem blind_edit {m : Hosted ContainerError (Sequence α) Unit} (h : Hosted.Blind m) :
    Hosted.Blind (edit m : Hosted ContainerError (Sequence α × ν) (SequenceAnswer α)) :=
  (blind_onSequence h).map _

theorem blind_run [Element α] (step : SequenceStep α ν) : Hosted.Blind step.run := by
  cases step with
  | push x => exact blind_edit (Sequence.blind_push x)
  | insert i x => exact blind_edit (Sequence.blind_insert i x)
  | erase i => exact blind_edit (Sequence.blind_erase i)
  | set i x => exact blind_edit (Sequence.blind_set i x)
  | get i => exact (blind_onSequence (Sequence.blind_ask _)).map _
  | last => exact (blind_onSequence (Sequence.blind_ask _)).map _
  | pop => exact (blind_onSequence Sequence.blind_pop).map _
  | clear => exact blind_edit (Sequence.blind_setLength 0)
  | reserve capacity => exact blind_edit (Sequence.blind_reserve _)
  | extend xs => exact blind_edit (Sequence.blind_extend xs)
  | index i => exact (blind_onSequence (Sequence.blind_ask _)).map _
  | setIndex i x => exact blind_edit (Sequence.blind_setIndex i x)
  | eachInPlace visitor =>
    have hwalk : Hosted.Blind (offHost (Sequence.eachInPlace visitor)) := by
      rw [offHost_eq]
      exact Hosted.blind_offHost _
    exact hwalk.map _

end SequenceStep

namespace SequenceCall

/-- What a call answers. -/
def Reply : SequenceCall α ν → Type
  | step _ => SequenceAnswer α
  | search _ => Nat
  | _ => Unit

variable [Element α]

/-- Runs a call, and answers all that it answers. -/
def reply : (c : SequenceCall α ν) → Hosted ContainerError (Sequence α × ν) c.Reply
  | step s => s.run
  | rearrange f => Hosted.onObject (Sequence.rearrange f)
  | each visitor => Hosted.reading fun v => v.each visitor
  | eachReverse visitor => Hosted.reading fun v => v.eachReverse visitor
  | search property => Hosted.reading fun v => v.search property

theorem blind_reply (c : SequenceCall α ν) : Hosted.Blind c.reply := by
  cases c with
  | step s => exact s.blind_run
  | rearrange f => exact (Sequence.blind_rearrange f).onObject
  | each visitor => exact Hosted.blind_reading fun v : Sequence α => v.each visitor
  | eachReverse visitor => exact Hosted.blind_reading fun v : Sequence α => v.eachReverse visitor
  | search property => exact Hosted.blind_reading fun v : Sequence α => v.search property

end SequenceCall

end Sequences

/-! ## Buffers -/

section Buffers

variable {α ν : Type} [Element α] [Initial α]

theorem BufferStep.blind_run (step : BufferStep α ν) : Hosted.Blind step.run := by
  cases step with
  | reserve capacity => exact (Buffer.blind_reserve _).onObject.map _
  | emplace => exact Buffer.blind_emplace.onObject.map _
  | push x => exact (Buffer.blind_push x).onObject.map _
  | setLimit limit => exact (Buffer.blind_setLimit limit).onObject.map _
  | clear => exact Buffer.blind_clear.onObject.map _
  | get i => exact (Buffer.blind_ask _).onObject.map _
  | last => exact (Buffer.blind_ask _).onObject.map _
  | replace i x => exact (Buffer.blind_replace i x).onObject.map _
  | replaceLast x => exact (Buffer.blind_replaceLast x).onObject.map _
  | fillSlot i value => exact (Buffer.blind_fillSlot i value).onObject.map _
  | eachInPlace visitor => exact (Hosted.blind_offHost _).map _

namespace BufferCall

/-- What a call answers. -/
def Reply : BufferCall α ν → Type
  | step _ => BufferAnswer α
  | search _ => Nat
  | list => List α
  | _ => Unit

/-- Runs a call, and answers all that it answers. -/
def reply : (c : BufferCall α ν) → Hosted ContainerError (Buffer α × ν) c.Reply
  | step s => s.run
  | each visitor => Hosted.reading fun b => b.each visitor
  | eachReverse visitor => Hosted.reading fun b => b.eachReverse visitor
  | search property => Hosted.reading fun b => b.search property
  | list => Hosted.asking fun b => Failure.ofChecked b.toList

theorem blind_reply (c : BufferCall α ν) : Hosted.Blind c.reply := by
  cases c with
  | step s => exact s.blind_run
  | each visitor => exact Hosted.blind_reading fun b : Buffer α => b.each visitor
  | eachReverse visitor => exact Hosted.blind_reading fun b : Buffer α => b.eachReverse visitor
  | search property => exact Hosted.blind_reading fun b : Buffer α => b.search property
  | list => exact Hosted.blind_asking fun b : Buffer α => Failure.ofChecked b.toList

end BufferCall

end Buffers

/-! ## Static arrays -/

namespace ArrayCall

variable {α ν : Type} [Element α] {n : Nat}

/-- What a call answers. -/
def Reply : ArrayCall α ν → Type
  | get _ => α
  | last => α
  | replace _ _ => α
  | replaceLast _ => α
  | list => List α
  | _ => Unit

/-- Runs a call, and answers all that it answers. -/
def reply : (c : ArrayCall α ν) → Hosted ContainerError (StaticArray α n × ν) c.Reply
  | get i => Hosted.asking fun a => a.get i
  | last => Hosted.asking StaticArray.last
  | replace i x => Hosted.onObject (StaticArray.replace i x)
  | replaceLast x => Hosted.onObject (StaticArray.replaceLast x)
  | each visitor => Hosted.reading fun a => a.each visitor
  | eachReverse visitor => Hosted.reading fun a => a.eachReverse visitor
  | eachInPlace visitor => Hosted.offHost (StaticArray.eachInPlace visitor)
  | eachReverseInPlace visitor => Hosted.offHost (StaticArray.eachReverseInPlace visitor)
  | list => Hosted.asking fun a => Failure.ofChecked a.toList

theorem blind_reply (c : ArrayCall α ν) :
    Hosted.Blind (c.reply : Hosted ContainerError (StaticArray α n × ν) c.Reply) := by
  cases c with
  | get i => exact Hosted.blind_asking fun a : StaticArray α n => a.get i
  | last => exact Hosted.blind_asking fun a : StaticArray α n => a.last
  | replace i x => exact (StaticArray.blind_replace i x).onObject
  | replaceLast x => exact (StaticArray.blind_replaceLast x).onObject
  | each visitor => exact Hosted.blind_reading fun a : StaticArray α n => a.each visitor
  | eachReverse visitor => exact Hosted.blind_reading fun a : StaticArray α n => a.eachReverse visitor
  | eachInPlace visitor => exact Hosted.blind_offHost _
  | eachReverseInPlace visitor => exact Hosted.blind_offHost _
  | list => exact Hosted.blind_asking fun a : StaticArray α n => Failure.ofChecked a.toList

end ArrayCall

/-! ## Probe tables -/

section Tables

variable {κ ν σ : Type} [Element κ] [Element ν]

theorem TableStep.blind_run (step : TableStep κ ν) : Hosted.Blind step.run := by
  cases step with
  | put key value => exact (ProbeTable.blind_put key value).map _
  | erase key => exact (ProbeTable.blind_erase key).map _
  | update key value => exact (ProbeTable.blind_update key value).map _
  | get key => exact (ProbeTable.blind_ask _).map _
  | contains key => exact (ProbeTable.blind_ask _).map _

namespace TableCall

/-- What a call answers. -/
def Reply : TableCall κ ν σ → Type
  | step _ => TableAnswer ν
  | each _ => Unit
  | list => List (κ × ν)

/-- Runs a call, and answers all that it answers. -/
def reply : (c : TableCall κ ν σ) → Hosted ContainerError (ProbeTable κ ν × σ) c.Reply
  | step s => Hosted.onObject s.run
  | each visitor => Hosted.reading fun t => t.each visitor
  | list => Hosted.asking fun t => Failure.ofChecked t.toList

theorem blind_reply (c : TableCall κ ν σ) : Hosted.Blind c.reply := by
  cases c with
  | step s => exact s.blind_run.onObject
  | each visitor => exact Hosted.blind_reading fun t : ProbeTable κ ν => t.each visitor
  | list => exact Hosted.blind_asking fun t : ProbeTable κ ν => Failure.ofChecked t.toList

end TableCall

end Tables

/-! ## Arenas -/

theorem ArenaStep.blind_run (step : ArenaStep) : Hosted.Blind step.run := by
  cases step with
  | take zeroed size =>
    cases zeroed with
    | false => exact Arena.blind_take size
    | true => exact Arena.blind_takeZeroed size
  | writeBytes offset bytes => exact (Arena.blind_updateBlock _).map _
  | reset => exact (Arena.blind_setOffset 0).map _

end AlignedSlots
