import Mathlib
import AlignedSlots.Proofs.Container.BufferLaws
import AlignedSlots.Proofs.Container.VisitorState

/-!
# Steps of a buffer

A step is one call of an operation with its arguments.  `BufferStep.run` makes the call on a buffer, and
`BufferStep.onWindow` says what the same step does to a window.  `BufferStep.Outcome` is how a step ends,
and `BufferStep.run_performs` that every step ends so: it does to the window of the buffer what it does
to a window, or the room that it needs is denied and nothing changes.
-/

namespace AlignedSlots

/-- An operation of a buffer and its arguments.  The visitors of all walks share a state `ν`. -/
inductive BufferStep (α ν : Type) where
  | reserve (capacity : UInt64)
  | emplace
  | push (x : α)
  | setLimit (limit : Nat)
  | clear
  | get (i : Nat)
  | last
  | replace (i : Nat) (x : α)
  | replaceLast (x : α)
  | fillSlot (i : Nat) (value : UInt8)
  | eachInPlace (visitor : Nat → Prog ContainerError (α × ν) Unit)

/-- What a step answers. -/
inductive BufferAnswer (α : Type) where
  | done
  | element (x : α)
  | index (i : Nat)

namespace BufferStep

variable {α ν β : Type} {step : BufferStep α ν}

/-! ## Steps on buffers -/

/-- A program without an answer of its own. -/
def edit (m : Hosted ContainerError (Buffer α) Unit) :
    Hosted ContainerError (Buffer α × ν) (BufferAnswer α) :=
  (fun _ => BufferAnswer.done) <$> Hosted.onObject m

/-- A program that answers an element. -/
def fetch (m : Hosted ContainerError (Buffer α) α) :
    Hosted ContainerError (Buffer α × ν) (BufferAnswer α) :=
  BufferAnswer.element <$> Hosted.onObject m

/-- Runs a step. -/
def run [Element α] [Initial α] :
    BufferStep α ν → Hosted ContainerError (Buffer α × ν) (BufferAnswer α)
  | reserve capacity => edit (Buffer.reserve capacity.toNat)
  | emplace => fetch Buffer.emplace
  | push x => BufferAnswer.index <$> Hosted.onObject (Buffer.push x)
  | setLimit limit => edit (Buffer.setLimit limit)
  | clear => edit Buffer.clear
  | get i => fetch (Buffer.ask fun b => b.get i)
  | last => fetch (Buffer.ask Buffer.last)
  | replace i x => fetch (Buffer.replace i x)
  | replaceLast x => fetch (Buffer.replaceLast x)
  | fillSlot i value => edit (Buffer.fillSlot i value)
  | eachInPlace visitor =>
    (fun _ => BufferAnswer.done) <$> Hosted.offHost (Buffer.eachInPlace visitor)

/-! ## Steps on windows -/

/-- Answers an element and leaves another window, or fails where there is none. -/
def answerElement (e : ContainerError) (w' : Window α) :
    Option α → Prog ContainerError (Window α × ν) (BufferAnswer α)
  | some x => fun (_, n) => .ok (.element x) (w', n)
  | none => fun s => .error (.error e) s

/-- What a step does to a window and to the state of the visitors. -/
def onWindow [Element α] [Initial α] :
    BufferStep α ν → Prog ContainerError (Window α × ν) (BufferAnswer α)
  | reserve capacity => fun (w, n) => .ok .done (w.reserve capacity.toNat, n)
  | emplace => fun (w, n) => .ok (.element (w.held w.limit)) (w.expose, n)
  | push x => fun (w, n) => .ok (.index w.limit) (w.expose.set w.limit x, n)
  | setLimit limit => fun (w, n) => .ok .done (w.setLimit limit, n)
  | clear => fun (w, n) => .ok .done (w.setLimit 0, n)
  | get i => fun (w, n) => answerElement .overflow w w.visible[i]? (w, n)
  | last => fun (w, n) => answerElement .underflow w w.visible.getLast? (w, n)
  | replace i x => fun (w, n) => answerElement .overflow (w.set i x) w.visible[i]? (w, n)
  | replaceLast x => fun (w, n) =>
    answerElement .underflow (w.set (w.limit - 1) x) w.visible.getLast? (w, n)
  | fillSlot i value => fun (w, n) =>
    if i < w.limit then .ok .done (w.set i (Slots.uniform α value), n)
    else .error (.error .overflow) (w, n)
  | eachInPlace visitor => fun (w, n) =>
    match Walk.visitList visitor 0 w.visible n with
    | .ok () (l, n) => .ok .done (w.overwrite l, n)
    | .error e (l, n) => .error e (w.overwrite l, n)

/-- How many slots a step wants room for. -/
def demand (limit : Nat) : BufferStep α ν → Nat
  | reserve capacity => capacity.toNat
  | emplace => limit + 1
  | push _ => limit + 1
  | _ => 0

/-- The step writes to slot `i`. -/
def Writes (limit i : Nat) : BufferStep α ν → Prop
  | push _ => i = limit
  | replace j _ => i = j
  | replaceLast _ => i + 1 = limit
  | fillSlot j _ => i = j
  | eachInPlace _ => i < limit
  | _ => False

/-- The step is about slot `i`. -/
def At (i : Nat) : BufferStep α ν → Prop
  | get j => j = i
  | replace j _ => j = i
  | fillSlot j _ => j = i
  | _ => False

/-- The step is about the last visible slot. -/
def AtLast : BufferStep α ν → Prop
  | last => True
  | replaceLast _ => True
  | _ => False

theorem At.demand_eq_zero {i : Nat} (h : step.At i) (limit : Nat) : step.demand limit = 0 := by
  cases step with
  | get _ => rfl
  | replace _ _ => rfl
  | fillSlot _ _ => rfl
  | _ => exact h.elim

theorem AtLast.demand_eq_zero (h : step.AtLast) (limit : Nat) : step.demand limit = 0 := by
  cases step with
  | last => rfl
  | replaceLast _ => rfl
  | _ => exact h.elim

/-! ## How a step ends -/

section Outcome

variable [Element α] [Initial α] {align : Nat} {b : Buffer α} {w w' : Window α}
  {n : ν} {host : Host}

/-- How a step ends, on a buffer that holds a window. -/
inductive Outcome (align : Nat) (step : BufferStep α ν) (b : Buffer α) (w : Window α) (n : ν)
    (heap : Heap) : Except (Failure ContainerError) (BufferAnswer α) → Buffer α × ν → Heap → Prop
  /-- The step does to the buffer what it does to the window. -/
  | answered {a : BufferAnswer α} {b' : Buffer α} {w' : Window α} {n' : ν} {heap' : Heap} :
      step.onWindow (w, n) = .ok a (w', n') → b'.Holds align w' →
      b.Grown (step.demand w.limit) heap b' heap' →
      Outcome align step b w n heap (.ok a) (b', n') heap'
  /-- The step fails as on the window.  Only a walk has changed anything by then. -/
  | failed {e : Failure ContainerError} {b' : Buffer α} {w' : Window α} {n' : ν} :
      step.onWindow (w, n) = .error e (w', n') → b'.Holds align w' →
      Slots.SamePlace b.slots b'.slots → b'.limit = b.limit →
      ((∃ visitor, step = .eachInPlace visitor) ∨ (b', n') = (b, n)) →
      Outcome align step b w n heap (.error e) (b', n') heap
  /-- There is no room for the step. -/
  | denied {e : Failure ContainerError} {heap' : Heap} :
      b.Denied (step.demand w.limit) heap heap' e →
      Outcome align step b w n heap (.error e) (b, n) heap'

/-- The program ends as the step does. -/
def Performs (align : Nat) (step : BufferStep α ν) (b : Buffer α) (w : Window α) (n : ν) (host : Host)
    (m : Hosted ContainerError (Buffer α × ν) (BufferAnswer α)) : Prop :=
  m.Ends ((b, n), host) (fun a s => Outcome align step b w n host.heap (.ok a) s.1 s.2.heap)
    fun e s => Outcome align step b w n host.heap (.error e) s.1 s.2.heap

/-- A step that needs room, and answers if there is some. -/
theorem performs_growing {m : Hosted ContainerError (Buffer α) β} {f : β → BufferAnswer α}
    {x : β} (hwindow : step.onWindow (w, n) = .ok (f x) (w', n))
    (h : m.Ends (b, host)
      (fun y s => y = x ∧ s.1.Holds align w' ∧ b.Grown (step.demand w.limit) host.heap s.1 s.2.heap)
      (fun e s => s.1 = b ∧ b.Denied (step.demand w.limit) host.heap s.2.heap e)) :
    Performs align step b w n host (f <$> Hosted.onObject m) := by
  apply ((Hosted.onObject_ends h n).mono _ _).map
  · rintro y ⟨⟨b', n'⟩, host'⟩ ⟨rfl, rfl, hholds, hgrown⟩
    exact .answered hwindow hholds hgrown
  · rintro e ⟨⟨b', n'⟩, host'⟩ ⟨rfl, rfl, hdenied⟩
    exact .denied hdenied

/-- A step that answers an element, or fails where there is none. -/
theorem performs_fetch {m : Hosted ContainerError (Buffer α) α} {x : Option α} {e₀ : ContainerError}
    (hdemand : step.demand w.limit = 0)
    (hwindow : step.onWindow (w, n) = answerElement e₀ w' x (w, n)) (hholds : b.Holds align w)
    (h : m.Ends (b, host)
      (fun y s => x = some y ∧ s.1.Holds align w' ∧ Slots.SamePlace b.slots s.1.slots ∧ s.2 = host)
      (fun e s => x = none ∧ e = .error e₀ ∧ s = (b, host))) :
    Performs align step b w n host (fetch m) := by
  apply ((Hosted.onObject_ends h n).mono _ _).map
  · rintro y ⟨⟨b', n'⟩, host'⟩ ⟨rfl, rfl, hholds', hplace, rfl⟩
    exact .answered hwindow hholds' (hdemand ▸ .of_samePlace hplace _)
  · rintro e ⟨⟨b', n'⟩, host'⟩ ⟨rfl, rfl, rfl, heq⟩
    cases heq
    exact .failed hwindow hholds (.refl _) rfl (.inr rfl)

/-- A step that reads an element. -/
theorem performs_read {f : Buffer α → Except (Failure ContainerError) α} {x : Option α}
    {e₀ : ContainerError} (hdemand : step.demand w.limit = 0)
    (hwindow : step.onWindow (w, n) = answerElement e₀ w x (w, n)) (hholds : b.Holds align w)
    (h : f b = Buffer.found e₀ x) : Performs align step b w n host (fetch (Buffer.ask f)) := by
  refine performs_fetch hdemand hwindow hholds ?_
  cases x with
  | some x => exact Prog.Ends.of_ok (Buffer.ask_ok h host) ⟨rfl, hholds, .refl _, rfl⟩
  | none => exact Prog.Ends.of_error (Buffer.ask_error h host) ⟨rfl, rfl, rfl⟩

variable [LawfulElement α]

/-- **Every step** does to a buffer what it does to the window that the buffer holds, unless the room
for it is denied. -/
theorem run_performs (step : BufferStep α ν) (h : b.Holds align w) (n : ν) (host : Host)
    (bounds : host.heap.placement.InBounds) : Performs align step b w n host step.run := by
  cases step with
  | reserve capacity =>
    have hword : capacity.toNat ≤ Word.greatest := Nat.le_sub_one_of_lt capacity.toNat_lt
    refine performs_growing (x := ()) rfl ((Buffer.reserve_ends h hword host bounds).mono ?_ ?_)
    · exact fun _ _ hok => ⟨rfl, hok⟩
    · exact fun _ _ hdenied => hdenied
  | emplace => exact performs_growing rfl (Buffer.emplace_ends h host bounds)
  | push x => exact performs_growing rfl (Buffer.push_ends h x host bounds)
  | setLimit limit =>
    refine performs_growing (x := ()) rfl ((Buffer.setLimit_ends h limit host).mono ?_ ?_)
    · rintro _ ⟨b', _⟩ ⟨hholds, hslots, rfl⟩
      exact ⟨rfl, hholds, .of_samePlace (hslots ▸ .refl _) _⟩
    · exact fun _ _ hfalse => hfalse.elim
  | clear =>
    refine performs_growing (x := ()) rfl ((Buffer.clear_ends h host).mono ?_ ?_)
    · rintro _ ⟨b', _⟩ ⟨hholds, hslots, rfl⟩
      exact ⟨rfl, hholds, .of_samePlace (hslots ▸ .refl _) _⟩
    · exact fun _ _ hfalse => hfalse.elim
  | get i => exact performs_read rfl rfl h (Buffer.get_eq h i)
  | last => exact performs_read rfl rfl h (Buffer.last_eq h)
  | replace i x => exact performs_fetch rfl rfl h (Buffer.replace_ends h i x host)
  | replaceLast x => exact performs_fetch rfl rfl h (Buffer.replaceLast_ends h x host)
  | fillSlot i value =>
    apply ((Hosted.onObject_ends (Buffer.fillSlot_ends h i value host) n).mono _ _).map
    · rintro _ ⟨⟨b', n'⟩, host'⟩ ⟨rfl, hi, hholds, hplace, rfl⟩
      exact .answered (if_pos hi) hholds (.of_samePlace hplace _)
    · rintro e ⟨⟨b', n'⟩, host'⟩ ⟨rfl, hi, rfl, heq⟩
      cases heq
      exact .failed (if_neg (Nat.not_lt.mpr hi)) h (.refl _) rfl (.inr rfl)
  | eachInPlace visitor =>
    apply ((Hosted.offHost_ends (Buffer.eachInPlace_ends h visitor n) host).mono _ _).map
    · rintro _ ⟨⟨b', n'⟩, host'⟩ ⟨rfl, l, hwalk, hholds, hplace⟩
      refine .answered ?_ hholds (.of_samePlace hplace _)
      simp only [onWindow, hwalk]
    · rintro e ⟨⟨b', n'⟩, host'⟩ ⟨rfl, l, hwalk, hholds, hplace⟩
      refine .failed ?_ hholds hplace (hholds.limit_eq.trans h.limit_eq.symm) (.inl ⟨visitor, rfl⟩)
      simp only [onWindow, hwalk]

end Outcome

end BufferStep

end AlignedSlots
