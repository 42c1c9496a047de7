import Mathlib
import AlignedSlots.Proofs.Log.BlindCalls

/-!
# Independence of the log

An `Interface` is what a user sees of an allocator or a container: how one is made, which calls it takes,
what each of them answers, and how it is given up.  A play is all that can be seen of a whole life of one
object: every answer and failure, the object with its memory and the calls to the heap after each step.

`log_never_shows`: the plays of all allocators and containers are the same for every greatest level and
whatever the log holds, and at every level but `trace` they leave the log alone.
-/

namespace AlignedSlots

/-- What a user sees of a kind of objects. -/
structure Interface where
  /-- The object, and the state that visitors share. -/
  Object : Type
  Error : Type
  Call : Type
  Answer : Call → Type
  make : Prog Error Host Object
  run : (c : Call) → Hosted Error Object (Answer c)
  drop : Hosted Error Object Unit

namespace Interface

/-- What is seen of one call. -/
structure Sight (k : Interface) where
  call : k.Call
  answer : Except (Failure k.Error) (k.Answer call)
  /-- The object after the call, with its memory. -/
  object : k.Object
  /-- The heap after the call, with all calls to it. -/
  heap : Heap

/-- What is seen of the life of one object. -/
structure Play (k : Interface) where
  made : Except (Failure k.Error) k.Object
  heap : Heap
  sights : List k.Sight
  /-- How the object was given up, if it was made. -/
  dropped : Option (Except (Failure k.Error) Unit × Heap)

/-- Runs calls one after the other, from the state that each leaves, and keeps what is seen of them. -/
def watch (k : Interface) : List k.Call → k.Object × Host → List k.Sight × (k.Object × Host)
  | [], s => ([], s)
  | c :: rest, s =>
    let s' := (k.run c).after s
    let (sights, last) := k.watch rest s'
    (⟨c, (k.run c).answer s, s'.1, s'.2.heap⟩ :: sights, last)

/-- Makes an object, runs calls, and gives it up.  Answers what is seen, and the log that is left. -/
def play (k : Interface) (calls : List k.Call) (host : Host) : k.Play × Log :=
  match k.make host with
  | .error e host => (⟨.error e, host.heap, [], none⟩, host.log)
  | .ok o host =>
    let (sights, last) := k.watch calls (o, host)
    let s := k.drop.after last
    (⟨.ok o, host.heap, sights, some (k.drop.answer last, s.2.heap)⟩, s.2.log)

/-- **The log never shows**: two plays on the same heap are the same, whatever the greatest levels of their
logs are, and at every level but `trace` no line is written. -/
structure Unobservable (k : Interface) : Prop where
  play_eq : ∀ calls heap log₁ log₂, (k.play calls ⟨heap, log₁⟩).1 = (k.play calls ⟨heap, log₂⟩).1
  log_eq : ∀ calls heap log, log.ceiling ≠ .trace → (k.play calls ⟨heap, log⟩).2 = log

/-- All that can be done with an object is blind to the log. -/
structure Blind (k : Interface) : Prop where
  make : Host.Blind k.make
  run : ∀ c, Hosted.Blind (k.run c)
  drop : Hosted.Blind k.drop

namespace Blind

variable {k : Interface}

/-- A blind program answers and leaves the same for all logs. -/
theorem exists_after {ε C α : Type} {m : Hosted ε C α} (h : Hosted.Blind m) (c : C) (heap : Heap) :
    ∃ answer c' heap', ∀ log, ∃ log', log.Quiet log' ∧ m.answer (c, ⟨heap, log⟩) = answer ∧
      m.after (c, ⟨heap, log⟩) = (c', ⟨heap', log'⟩) := by
  obtain ⟨result, hresult⟩ := h (c, heap)
  cases result with
  | ok a s =>
    refine ⟨.ok a, s.1, s.2, fun log => ?_⟩
    obtain ⟨log', hquiet, hrun⟩ := hresult log
    exact ⟨log', hquiet, Prog.answer_of_ok hrun, Prog.after_of_ok hrun⟩
  | error e s =>
    refine ⟨.error e, s.1, s.2, fun log => ?_⟩
    obtain ⟨log', hquiet, hrun⟩ := hresult log
    exact ⟨log', hquiet, Prog.answer_of_error hrun, Prog.after_of_error hrun⟩

/-- What is seen of calls is the same for all logs. -/
theorem exists_watch (h : k.Blind) (calls : List k.Call) (o : k.Object) (heap : Heap) :
    ∃ sights o' heap', ∀ log, ∃ log', log.Quiet log' ∧
      k.watch calls (o, ⟨heap, log⟩) = (sights, o', ⟨heap', log'⟩) := by
  induction calls generalizing o heap with
  | nil => exact ⟨[], o, heap, fun log => ⟨log, .refl log, rfl⟩⟩
  | cons c rest ih =>
    obtain ⟨answer, o₁, heap₁, hstep⟩ := exists_after (h.run c) o heap
    obtain ⟨sights, o', heap', hrest⟩ := ih o₁ heap₁
    refine ⟨⟨c, answer, o₁, heap₁⟩ :: sights, o', heap', fun log => ?_⟩
    obtain ⟨log₁, hquiet₁, hanswer, hafter⟩ := hstep log
    obtain ⟨log', hquiet', hwatch⟩ := hrest log₁
    refine ⟨log', hquiet₁.trans hquiet', ?_⟩
    simp only [watch, hanswer, hafter, hwatch]

theorem exists_play (h : k.Blind) (calls : List k.Call) (heap : Heap) :
    ∃ play, ∀ log, ∃ log', log.Quiet log' ∧ k.play calls ⟨heap, log⟩ = (play, log') := by
  obtain ⟨result, hresult⟩ := h.make heap
  cases result with
  | error e heap₁ =>
    refine ⟨⟨.error e, heap₁, [], none⟩, fun log => ?_⟩
    obtain ⟨log', hquiet, hmake⟩ := hresult log
    refine ⟨log', hquiet, ?_⟩
    have hmake : k.make ⟨heap, log⟩ = .error e ⟨heap₁, log'⟩ := hmake
    simp only [play, hmake]
  | ok o heap₁ =>
    obtain ⟨sights, o₂, heap₂, hwatch⟩ := h.exists_watch calls o heap₁
    obtain ⟨dropped, o₃, heap₃, hdrop⟩ := exists_after h.drop o₂ heap₂
    refine ⟨⟨.ok o, heap₁, sights, some (dropped, heap₃)⟩, fun log => ?_⟩
    obtain ⟨log₁, hquiet₁, hmake⟩ := hresult log
    obtain ⟨log₂, hquiet₂, hseen⟩ := hwatch log₁
    obtain ⟨log₃, hquiet₃, hanswer, hafter⟩ := hdrop log₂
    refine ⟨log₃, (hquiet₁.trans hquiet₂).trans hquiet₃, ?_⟩
    have hmake : k.make ⟨heap, log⟩ = .ok o ⟨heap₁, log₁⟩ := hmake
    simp only [play, hmake, hseen, hanswer, hafter]

theorem unobservable (h : k.Blind) : k.Unobservable := by
  refine ⟨fun calls heap log₁ log₂ => ?_, fun calls heap log hceiling => ?_⟩
  · obtain ⟨play, hplay⟩ := h.exists_play calls heap
    obtain ⟨_, _, h₁⟩ := hplay log₁
    obtain ⟨_, _, h₂⟩ := hplay log₂
    rw [h₁, h₂]
  · obtain ⟨play, hplay⟩ := h.exists_play calls heap
    obtain ⟨log', hquiet, hrun⟩ := hplay log
    rw [hrun]
    exact hquiet.unchanged hceiling

end Blind

end Interface

/-! ## Allocators and containers -/

/-- Aligned blocks under names.  Giving the shelf up gives back all of them. -/
def Shelf.interface : Interface where
  Object := Shelf
  Error := Refusal
  Call := String × ShelfStep
  Answer _ := Option Parcel
  make := pure .empty
  run c := c.2.run c.1
  drop := do
    let shelf ← Hosted.object
    ShelfStep.releaseAll shelf.names

/-- Arenas of a size. -/
def Arena.interface (size : Nat) : Interface where
  Object := Arena
  Error := Refusal
  Call := ArenaStep
  Answer _ := Option Nat
  make := create size
  run := ArenaStep.run
  drop := drop

section Containers

variable {α ν κ υ : Type} [Element α] [Element κ] [Element υ]

/-- Sequences, with visitors that start in the state `n`. -/
def Sequence.interface (α : Type) [Element α] (n : ν) : Interface where
  Object := Sequence α × ν
  Error := ContainerError
  Call := SequenceCall α ν
  Answer := SequenceCall.Reply
  make := (fun v => (v, n)) <$> Prog.ofChecked (empty α)
  run := SequenceCall.reply
  drop := Hosted.onObject drop

/-- Buffers whose slots have at least an alignment. -/
def Buffer.interface (α : Type) [Element α] [Initial α] (align : Nat) (n : ν) : Interface where
  Object := Buffer α × ν
  Error := ContainerError
  Call := BufferCall α ν
  Answer := BufferCall.Reply
  make := (fun b => (b, n)) <$> Prog.ofChecked (empty α align)
  run := BufferCall.reply
  drop := Hosted.onObject drop

/-- Arrays of `count` elements with at least an alignment. -/
def StaticArray.interface (α : Type) [Element α] [Initial α] (count align : Nat) (n : ν) :
    Interface where
  Object := StaticArray α count × ν
  Error := ContainerError
  Call := ArrayCall α ν
  Answer := ArrayCall.Reply
  make := (fun a => (a, n)) <$> create α count align
  run := ArrayCall.reply
  drop := Hosted.onObject drop

/-- Tables with a keying. -/
def ProbeTable.interface (keying : Keying κ) (υ : Type) [Element υ] (n : ν) : Interface where
  Object := ProbeTable κ υ × ν
  Error := ContainerError
  Call := TableCall κ υ ν
  Answer := TableCall.Reply
  make := (fun t => (t, n)) <$> create keying υ
  run := TableCall.reply
  drop := Hosted.onObject drop

theorem Shelf.blind_interface : interface.Blind where
  make := .pure _
  run c := ShelfStep.blind_run c.1 c.2
  drop := .bind Hosted.blind_object fun _ => ShelfStep.blind_releaseAll _

theorem Arena.blind_interface (size : Nat) : (interface size).Blind :=
  ⟨blind_create size, ArenaStep.blind_run, blind_drop⟩

theorem Sequence.blind_interface (n : ν) : (interface α n).Blind :=
  ⟨(Prog.Blind.ofChecked _).map _, SequenceCall.blind_reply, blind_drop.onObject⟩

theorem Buffer.blind_interface [Initial α] (align : Nat) (n : ν) : (interface α align n).Blind :=
  ⟨(Prog.Blind.ofChecked _).map _, BufferCall.blind_reply, blind_drop.onObject⟩

theorem StaticArray.blind_interface [Initial α] (count align : Nat) (n : ν) :
    (interface α count align n).Blind :=
  ⟨(blind_create α count align).map _, ArrayCall.blind_reply, blind_drop.onObject⟩

theorem ProbeTable.blind_interface (keying : Keying κ) (n : ν) : (interface keying υ n).Blind :=
  ⟨(blind_create keying).map _, TableCall.blind_reply, blind_drop.onObject⟩

/-- **The log never shows** in a play of an allocator or a container: two runs of the same script on the
same heap answer, fail and leave the same after every step, and ask the heap for the same blocks, whatever
the greatest levels of their logs are.  At every level but `trace` no line is written. -/
theorem log_never_shows [Initial α] (size align count : Nat) (keying : Keying κ) (n : ν) :
    Shelf.interface.Unobservable ∧ (Arena.interface size).Unobservable ∧
      (Sequence.interface α n).Unobservable ∧ (Buffer.interface α align n).Unobservable ∧
      (StaticArray.interface α count align n).Unobservable ∧
      (ProbeTable.interface keying υ n).Unobservable :=
  ⟨Shelf.blind_interface.unobservable, (Arena.blind_interface size).unobservable,
    (Sequence.blind_interface n).unobservable, (Buffer.blind_interface align n).unobservable,
    (StaticArray.blind_interface count align n).unobservable,
    (ProbeTable.blind_interface keying n).unobservable⟩

end Containers

/-- At the level `trace` an arena writes three lines when its block is allocated, and one about a piece that
it refuses. -/
example : ((Arena.interface 64).play [.take false 100]
    ⟨Host.ordinary.heap, Log.withCeiling {} .trace⟩).2.lines.size = 4 := by decide +kernel

end AlignedSlots
