import Mathlib
import AlignedSlots.Proofs.Container.ArrayLaws
import AlignedSlots.Proofs.Container.Lifecycle

/-!
# The lifecycle of a static array

`StaticArray.tended` is what every call of an array keeps and how it fails.  No call turns over the block
of slots, which an array owns from the moment it is made, unless it has no elements.
-/

namespace AlignedSlots

/-- A call of an array. -/
inductive ArrayCall (α ν : Type) where
  | get (i : Nat)
  | last
  | replace (i : Nat) (x : α)
  | replaceLast (x : α)
  | each (visitor : Nat → α → Prog ContainerError ν Unit)
  | eachReverse (visitor : Nat → α → Prog ContainerError ν Unit)
  | eachInPlace (visitor : Nat → Prog ContainerError (α × ν) Unit)
  | eachReverseInPlace (visitor : Nat → Prog ContainerError (α × ν) Unit)
  | list

namespace ArrayCall

variable {α ν : Type}

/-- Runs a call. -/
def run [Element α] {n : Nat} :
    ArrayCall α ν → Hosted ContainerError (StaticArray α n × ν) Unit
  | get i => (fun _ => ()) <$> Hosted.asking fun a => a.get i
  | last => (fun _ => ()) <$> Hosted.asking StaticArray.last
  | replace i x => (fun _ => ()) <$> Hosted.onObject (StaticArray.replace i x)
  | replaceLast x => (fun _ => ()) <$> Hosted.onObject (StaticArray.replaceLast x)
  | each visitor => Hosted.reading fun a => a.each visitor
  | eachReverse visitor => Hosted.reading fun a => a.eachReverse visitor
  | eachInPlace visitor => Hosted.offHost (StaticArray.eachInPlace visitor)
  | eachReverseInPlace visitor => Hosted.offHost (StaticArray.eachReverseInPlace visitor)
  | list => (fun _ => ()) <$> Hosted.asking fun a => Failure.ofChecked a.toList

/-- The errors that a call answers. -/
def Answers : ArrayCall α ν → ContainerError → Prop
  | get _, e => e = .illegalArgument
  | last, e => e = .illegalArgument
  | replace _ _, e => e = .illegalArgument
  | replaceLast _, e => e = .illegalArgument
  | each visitor, e => Walk.Raises visitor (.error e)
  | eachReverse visitor, e => Walk.Raises visitor (.error e)
  | eachInPlace visitor, e => Walk.RaisesInPlace visitor (.error e)
  | eachReverseInPlace visitor, e => Walk.RaisesInPlace visitor (.error e)
  | list, _ => False

/-- No visitor of the call faults by itself. -/
def Calm : ArrayCall α ν → Prop
  | each visitor => ∀ f, ¬ Walk.Raises visitor (.fault f)
  | eachReverse visitor => ∀ f, ¬ Walk.Raises visitor (.fault f)
  | eachInPlace visitor => ∀ f, ¬ Walk.RaisesInPlace visitor (.fault f)
  | eachReverseInPlace visitor => ∀ f, ¬ Walk.RaisesInPlace visitor (.fault f)
  | _ => True

end ArrayCall

namespace StaticArray

/-- Arrays of `n` elements with at least an alignment, as they are seen from the heap. -/
def lifecycle (α ν : Type) [Element α] [Initial α] (n align : Nat) : Lifecycle where
  Object := StaticArray α n
  Visitors := ν
  Call := ArrayCall α ν
  Error := ContainerError
  make := create α n align
  run := ArrayCall.run
  drop := drop
  owned a := a.slots.base
  Stores _ := n ≠ 0
  MakeAnswers e := e = .badAlloc
  Answers := ArrayCall.Answers
  Panics _ _ _ := False
  Calm := ArrayCall.Calm

variable {α ν : Type} {n : Nat} [Element α] {a : StaticArray α n} {m : ν} {host : Host}

variable [LawfulElement α]

/-- A walk in place keeps the array, and fails as its visitor does. -/
theorem visitInOrder_tends {Fails : Failure ContainerError → Prop} (h : a.Sound) {order : List Nat}
    (horder : ∀ i ∈ order, i < n) (visitor : Nat → Prog ContainerError (α × ν) Unit)
    (hfails : ∀ e, Walk.RaisesInPlace visitor e → Fails e) :
    (Hosted.offHost (visitInOrder order visitor)).Tends (fun a => a.slots.base) Sound Fails a m
      host := by
  apply (Hosted.offHost_ends (visitInOrder_ends h horder visitor m) host).mono
  · rintro _ ⟨⟨_, _⟩, _⟩ ⟨rfl, hsound, hplace⟩
    exact ⟨hsound, .of_eq hplace.base_eq rfl⟩
  · rintro e ⟨⟨_, _⟩, _⟩ ⟨rfl, hsound, hplace, hraises⟩
    exact ⟨hsound, .of_eq hplace.base_eq rfl, hfails e hraises⟩

variable [Initial α] {align : Nat}

/-- **Every call** keeps an array sound and its block where it is. -/
theorem run_tends (c : ArrayCall α ν) (h : a.Sound) (m : ν) (host : Host) :
    c.run.Tends (fun a => a.slots.base) Sound
      (fun e => Supported α ∧ ValidAlign align → c.Calm → (lifecycle α ν n align).Fails a c e) a m
      host := by
  cases c with
  | get i =>
    apply Hosted.Tends.map
    refine Hosted.Tends.asking h fun e he _ _ => ?_
    rw [get_eq h] at he
    split at he
    · cases he
    · cases he
      rfl
  | last =>
    apply Hosted.Tends.map
    refine Hosted.Tends.asking h fun e he _ _ => ?_
    rw [last_eq h] at he
    split at he
    · cases he
    · cases he
      rfl
  | replace i x =>
    apply Hosted.Tends.map
    apply Hosted.Tends.onObject
    apply (replace_ends h i x host).mono
    · rintro _ ⟨_, _⟩ ⟨_, _, hsound, hplace, rfl⟩
      exact ⟨hsound, .of_eq hplace.base_eq rfl⟩
    · rintro e _ ⟨_, rfl, rfl⟩
      exact ⟨h, .kept _, fun _ _ => rfl⟩
  | replaceLast x =>
    apply Hosted.Tends.map
    apply Hosted.Tends.onObject
    apply (replaceLast_ends h x host).mono
    · rintro _ ⟨_, _⟩ ⟨hsound, hplace, rfl⟩
      exact ⟨hsound, .of_eq hplace.base_eq rfl⟩
    · rintro e _ ⟨_, rfl, rfl⟩
      exact ⟨h, .kept _, fun _ _ => rfl⟩
  | each visitor =>
    refine Hosted.Tends.reading (m := fun a : StaticArray α n => a.each visitor) h
      (Walk.visit_ends (fun i hi => ⟨_, h.read_eq (Walk.lt_of_mem_forward hi)⟩) visitor m) ?_
    exact fun _ hraises _ calm => Failure.within_of_calm hraises calm
  | eachReverse visitor =>
    refine Hosted.Tends.reading (m := fun a : StaticArray α n => a.eachReverse visitor) h
      (Walk.visit_ends (fun i hi => ⟨_, h.read_eq (Walk.lt_of_mem_backward hi)⟩) visitor m) ?_
    exact fun _ hraises _ calm => Failure.within_of_calm hraises calm
  | eachInPlace visitor =>
    exact visitInOrder_tends h (fun i => Walk.lt_of_mem_forward) visitor fun _ hraises _ calm =>
      Failure.within_of_calm hraises calm
  | eachReverseInPlace visitor =>
    exact visitInOrder_tends h (fun i => Walk.lt_of_mem_backward) visitor fun _ hraises _ calm =>
      Failure.within_of_calm hraises calm
  | list =>
    apply Hosted.Tends.map
    refine Hosted.Tends.asking h fun e he _ _ => ?_
    rw [toList_eq h] at he
    cases he

/-- **What an array keeps**, whatever is done with it. -/
theorem tended (α ν : Type) [Element α] [LawfulElement α] [Initial α] (n align : Nat) :
    (lifecycle α ν n align).Tended (Supported α ∧ ValidAlign align) Sound where
  make_ends host bounds := by
    apply (create_ends n align host bounds).mono
    · exact fun _ _ hmade => hmade
    · rintro e host' ⟨hturn, hrefused⟩
      refine ⟨hturn, fun ⟨supported, valid⟩ => ?_⟩
      rw [hrefused supported.size_lt valid.1 (supported.validAlign_max valid)]
      rfl
  run_tends c a m host h _ := run_tends c h m host
  drop_ends a host h := drop_ends h host
  stores_iff a h := by
    show a.slots.base.isSome ↔ n ≠ 0
    rw [h.ready.isSome_base_iff, h.capacity_eq]

end StaticArray

end AlignedSlots
